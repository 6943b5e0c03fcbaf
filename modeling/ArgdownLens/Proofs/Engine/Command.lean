import ArgdownLens.Engine.Command
import ArgdownLens.Proofs.Wire.Field

/-!
# When a program answers

An engine that is a program answers exactly if it starts, gets its input, ends well and prints an
answer (`CommandConfig.engine_eq_ok_iff`). The system is to blame exactly if the program starts but
the exchange with it fails (`CommandConfig.engine_eq_io_iff`). A program may stop reading before all
of its input is written: this is no failure (`Delivery.Arrived`), and what counts is how it ends.
-/

namespace ArgdownLens

variable {r : Response}

/-- A result that is passed on with other errors is the same result. -/
theorem mapError_eq_ok {ε ε' α : Type} {x : Except ε α} {f : ε → ε'} {a : α} :
    x.mapError f = .ok a ↔ x = .ok a := by
  cases x <;> simp [Except.mapError]

/-! ## Exchanges -/

/-- An input arrived if it was written, or if nobody reads the rest of it. -/
def Delivery.Arrived : Delivery → Prop
  | .finished => True
  | .failed fault => fault.isBrokenPipe
  | .panicked => False

/-- An exchange fails if waiting for the program does, or if the input did not arrive. -/
def Exchange.Fails (e : Exchange) : Prop :=
  (∃ fault, e.ending = .error fault) ∨ ¬ e.delivery.Arrived

/-- An input that arrived is not refused. -/
theorem Delivery.Arrived.check {d : Delivery} (h : d.Arrived) : d.check = .ok () := by
  cases d with
  | finished => rfl
  | failed fault => exact if_pos h
  | panicked => exact h.elim

/-- An input that did not arrive is refused as a fault of the system. -/
theorem Delivery.check_of_not_arrived {d : Delivery} (h : ¬ d.Arrived) :
    ∃ fault, d.check = .error (.io fault) := by
  cases d with
  | finished => exact absurd trivial h
  | failed fault => exact ⟨fault, if_neg h⟩
  | panicked => exact ⟨_, rfl⟩

/-- A completed program answers if it ended well and printed an answer. -/
theorem Completion.response_eq_ok_iff {c : Completion} :
    c.response = .ok r ↔ c.status.isSuccess ∧ Wire.decodeBytes c.stdout = .ok r := by
  unfold response
  split_ifs with hsuccess
  · rw [mapError_eq_ok, and_iff_right hsuccess]
  · exact iff_of_false nofun fun h => hsuccess h.1

/-- What a completed program says is no fault of the system. -/
theorem Completion.response_ne_io (c : Completion) (fault : IoFault) :
    c.response ≠ .error (.io fault) := by
  unfold response
  split_ifs
  · cases Wire.decodeBytes c.stdout with
    | ok r => exact nofun
    | error e => cases e <;> exact nofun
  · exact nofun

/-- An exchange that does not fail says what the program says. -/
theorem Exchange.response_of_not_fails {e : Exchange} (h : ¬ e.Fails) :
    ∃ completion, e.ending = .ok completion ∧ e.response = completion.response := by
  obtain ⟨hending, harrived⟩ := not_or.mp h
  unfold response
  cases hcompletion : e.ending with
  | error fault => exact absurd ⟨fault, hcompletion⟩ hending
  | ok completion =>
    refine ⟨completion, rfl, ?_⟩
    rw [(not_not.mp harrived).check]
    rfl

/-- An exchange that fails is a fault of the system, whatever the program says. -/
theorem Exchange.Fails.response {e : Exchange} (h : e.Fails) :
    ∃ fault, e.response = .error (.io fault) := by
  unfold Exchange.response
  cases hcompletion : e.ending with
  | error fault => exact ⟨fault, rfl⟩
  | ok completion =>
    obtain ⟨fault, hcheck⟩ := Delivery.check_of_not_arrived
      (h.resolve_left fun ⟨fault, hfault⟩ => by rw [hcompletion] at hfault; cases hfault)
    refine ⟨fault, ?_⟩
    rw [hcheck]
    rfl

/-! ## Engines -/

namespace CommandConfig

variable (c : CommandConfig) (machine : Machine) (request : EngineRequest)

/-- A program that was started with a request that can be written says what the exchange says. -/
theorem engine_of_start {child : Child} (hstart : machine.start c.program c.args = .ok child)
    {payload : String} (hpayload : request.payload = .ok payload)
    {exchange : List UInt8 → Exchange} (hexchange : child.exchange? = some exchange) :
    c.engine machine request = (exchange (Utf8.encode payload)).response := by
  unfold engine
  rw [hstart, hpayload]
  simp only [Except.mapError, Wire.ok_bind, hexchange]

/-- A program answers exactly if it starts, gets the request as its input, does not fail to exchange
anything, ends well, and prints the answer. -/
theorem engine_eq_ok_iff :
    c.engine machine request = .ok r ↔
      ∃ child payload exchange completion, machine.start c.program c.args = .ok child ∧
        request.payload = .ok payload ∧ child.exchange? = some exchange ∧
        ¬ (exchange (Utf8.encode payload)).Fails ∧
        (exchange (Utf8.encode payload)).ending = .ok completion ∧
        completion.status.isSuccess ∧ Wire.decodeBytes completion.stdout = .ok r := by
  constructor
  · intro h
    obtain ⟨child, hstart, hrest⟩ := Wire.bind_eq_ok.mp h
    obtain ⟨payload, hpayload, hrest⟩ := Wire.bind_eq_ok.mp hrest
    rw [mapError_eq_ok] at hstart hpayload
    cases hexchange : child.exchange? with
    | none =>
      rw [hexchange] at hrest
      cases hrest
    | some exchange =>
      rw [engine_of_start c machine request hstart hpayload hexchange] at h
      have hnot : ¬ (exchange (Utf8.encode payload)).Fails := by
        intro hfails
        obtain ⟨fault, hfault⟩ := hfails.response
        rw [hfault] at h
        cases h
      obtain ⟨completion, hending, hresponse⟩ := Exchange.response_of_not_fails hnot
      rw [hresponse, Completion.response_eq_ok_iff] at h
      exact ⟨child, payload, exchange, completion, hstart, hpayload, hexchange, hnot, hending, h⟩
  · rintro ⟨child, payload, exchange, completion, hstart, hpayload, hexchange, hnot, hending, h⟩
    obtain ⟨completion', hending', hresponse⟩ := Exchange.response_of_not_fails hnot
    obtain rfl := Except.ok.inj (hending.symm.trans hending')
    rw [engine_of_start c machine request hstart hpayload hexchange, hresponse,
      Completion.response_eq_ok_iff]
    exact h

/-- The system is to blame exactly if the program starts and the request can be written, but there
is no input for it or the exchange fails. -/
theorem engine_eq_io_iff :
    (∃ fault, c.engine machine request = .error (.io fault)) ↔
      ∃ child payload, machine.start c.program c.args = .ok child ∧
        request.payload = .ok payload ∧
        ∀ exchange ∈ child.exchange?, (exchange (Utf8.encode payload)).Fails := by
  -- A program that does not start and a request that cannot be written are other faults.
  cases hstart : machine.start c.program c.args with
  | error fault => simp [engine, hstart, Except.mapError, Bind.bind, Except.bind]
  | ok child =>
    cases hpayload : request.payload with
    | error m => simp [engine, hstart, hpayload, Except.mapError, Bind.bind, Except.bind]
    | ok payload =>
      cases hexchange : child.exchange? with
      | none => simp [engine, hstart, hpayload, hexchange, Except.mapError, Bind.bind, Except.bind]
      | some exchange =>
        rw [engine_of_start c machine request hstart hpayload hexchange]
        constructor
        · rintro ⟨fault, hfault⟩
          refine ⟨child, payload, rfl, rfl, fun exchange' hexchange' => ?_⟩
          obtain rfl := Option.some.inj (hexchange.symm.trans hexchange')
          by_contra hnot
          obtain ⟨completion, -, hresponse⟩ := Exchange.response_of_not_fails hnot
          exact completion.response_ne_io fault (hresponse.symm.trans hfault)
        · rintro ⟨child', payload', hchild, hpayload', hfails⟩
          obtain rfl := Except.ok.inj hchild
          obtain rfl := Except.ok.inj hpayload'
          exact (hfails exchange hexchange).response

end CommandConfig

end ArgdownLens
