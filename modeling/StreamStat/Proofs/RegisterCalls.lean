import Mathlib.Data.List.Basic
import StreamStat.Session.Run

/-!
# Calls of the register

The register is asked for its object, configured, reset, or called by one of its
methods. A method belongs to the class: called on an object it does what it does on the
class, on the ledger that is current now. All that a call can do is listed once (`Turn`),
whatever the factories are.
-/

namespace StreamStat

namespace Register

section
variable {φ : Type}

/-! ## Opening and adding -/

@[simp] theorem ledger_ensure (r : Register φ) : r.ensure.ledger = r.ledger := by
  unfold ensure ledger
  cases h : r.current <;> simp [h]

@[simp] theorem configured_ensure (r : Register φ) : r.ensure.configured = r.configured := by
  unfold ensure
  split <;> rfl

theorem current_ensure (r : Register φ) : r.ensure.current = some r.ledger := by
  unfold ensure ledger
  cases h : r.current <;> simp [h]

theorem opened_le_ensure (r : Register φ) : r.opened ≤ r.ensure.opened := by
  unfold ensure
  split
  · exact Nat.le_refl _
  · exact Nat.le_succ _

@[simp] theorem find?_ensure (r : Register φ) (name : String) : r.ensure.find? name = r.find? name := by
  rw [find?, ledger_ensure, find?]

def adding (r : Register φ) (name : String) (f : φ) : Register φ :=
  { r.ensure with
    current := some { r.ledger with factories := r.ledger.factories ++ [(name, f)] } }

@[simp] theorem ledger_adding (r : Register φ) (name : String) (f : φ) :
    (r.adding name f).ledger = { r.ledger with factories := r.ledger.factories ++ [(name, f)] } := rfl

@[simp] theorem configured_adding (r : Register φ) (name : String) (f : φ) :
    (r.adding name f).configured = r.configured := configured_ensure r

theorem register_of_none {r : Register φ} {name : String} (h : r.find? name = none) (f : φ) :
    r.register name f = (r.adding name f, .ok ()) := by
  simp only [register, find?_ensure, h, ledger_ensure, adding]

theorem register_of_some {r : Register φ} {name : String} {g : φ} (h : r.find? name = some g)
    (f : φ) : r.register name f = (r.ensure, .error (.register (.duplicate name))) := by
  simp only [register, find?_ensure, h]

def configuring (r : Register φ) (uniform : φ) : Register φ :=
  { r.adding builtin uniform with configured := some r.ledger.serial }

theorem get_of_some {r : Register φ} {name : String} {f : φ} (h : r.find? name = some f) :
    r.get name = (r.ensure, .ok f) := by
  simp only [get, find?_ensure, h]

theorem get_of_none {r : Register φ} {name : String} (h : r.find? name = none) :
    r.get name = (r.ensure, .error (.register (.unknown name))) := by
  simp only [get, find?_ensure, h]

theorem names_eq (r : Register φ) : r.names = (r.ensure, .ok r.ledger.names) := by
  simp only [names, ledger_ensure]

theorem configure_of_some {r : Register φ} {n : Nat} (h : r.configured = some n) (uniform : φ) :
    r.configure uniform = (r, .ok n) := by
  simp only [configure, h]

theorem configure_of_none {r : Register φ} (h : r.configured = none) (hn : r.find? builtin = none) (uniform : φ) :
    r.configure uniform = (r.configuring uniform, .ok r.ledger.serial) := by
  simp only [configure, h, register_of_none hn]
  rfl

theorem configure_of_occupied {r : Register φ} {f : φ} (h : r.configured = none)
    (hf : r.find? builtin = some f) (uniform : φ) :
    r.configure uniform = (r.ensure, .error (.register (.duplicate builtin))) := by
  simp only [configure, h, register_of_some hf]

/-! ## Calls and replies -/

inductive Method (φ : Type) where
  | register (name : String) (f : φ)
  | get (name : String)
  | names

inductive Call (φ : Type) where
  | object
  | configure
  | reset
  | method (on : Option Value) (m : Method φ)

def Call.on : Call φ → Option Value
  | .method on _ => on
  | _ => none

inductive Reply (φ : Type) where
  | done
  | object (v : Value)
  | factory (f : φ)
  | names (ns : List String)

/-- All that a call can do with the register; configuring gives it the factory `uniform`. -/
inductive Turn (uniform : φ) (r : Register φ) : Call φ → Except Fault (Reply φ) → Register φ → Prop where
  | object (v : Value) : Turn uniform r .object (.ok (.object v)) r.ensure
  | reset : Turn uniform r .reset (.ok .done) r.reset
  | remembered {serial : Nat} (v : Value) (h : r.configured = some serial) :
    Turn uniform r .configure (.ok (.object v)) r
  | configured (v : Value) (h : r.configured = none) (hn : r.find? builtin = none) :
    Turn uniform r .configure (.ok (.object v)) (r.configuring uniform)
  | occupied {f : φ} (h : r.configured = none) (hn : r.find? builtin = some f) :
    Turn uniform r .configure (.error (.register (.duplicate builtin))) r.ensure
  | added {on : Option Value} {name : String} (f : φ) (h : r.find? name = none) :
    Turn uniform r (.method on (.register name f)) (.ok .done) (r.adding name f)
  | duplicate {on : Option Value} {name : String} {g : φ} (f : φ) (h : r.find? name = some g) :
    Turn uniform r (.method on (.register name f)) (.error (.register (.duplicate name))) r.ensure
  | found {on : Option Value} {name : String} {f : φ} (h : r.find? name = some f) :
    Turn uniform r (.method on (.get name)) (.ok (.factory f)) r.ensure
  | unknown {on : Option Value} {name : String} (h : r.find? name = none) :
    Turn uniform r (.method on (.get name)) (.error (.register (.unknown name))) r.ensure
  | names {on : Option Value} : Turn uniform r (.method on .names) (.ok (.names r.ledger.names)) r.ensure

namespace Turn

variable {uniform : φ} {r r' : Register φ} {c : Call φ} {on : Option Value} {name : String} {reply : Except Fault (Reply φ)}

theorem get (h : Turn uniform r (.method on (.get name)) reply r') :
    reply = (r.find? name).elim (.error (.register (.unknown name))) fun f => .ok (.factory f) := by
  cases h with
  | found h | unknown h => rw [h]; rfl

theorem register {f : φ} (h : Turn uniform r (.method on (.register name f)) reply r') :
    reply = (r.find? name).elim (.ok .done) fun _ => .error (.register (.duplicate name)) := by
  cases h with
  | added _ h | duplicate _ h => rw [h]; rfl

theorem listed (h : Turn uniform r (.method on .names) reply r') : reply = .ok (.names r.ledger.names) := by
  cases h
  rfl

theorem configure_error (h : Turn uniform r .configure reply r') :
    reply = .error (.register (.duplicate builtin)) ↔ r.configured = none ∧ r.find? builtin ≠ none := by
  cases h with
  | remembered v h => simp [h]
  | configured v h hn => simp [hn]
  | occupied h hn => simp [h, hn]

theorem configure_object (h : Turn uniform r .configure reply r') :
    (∃ v, reply = .ok (.object v)) ↔ ¬(r.configured = none ∧ r.find? builtin ≠ none) := by
  cases h with
  | remembered v h => simp [h]
  | configured v h hn => simp [hn]
  | occupied h hn => simp [h, hn]

theorem refused {x : Fault} (h : Turn uniform r c (.error x) r') :
    r'.find? = r.find? ∧ r'.configured = r.configured := by
  cases h with
  | occupied | duplicate | unknown => exact ⟨funext fun name => find?_ensure r name, configured_ensure r⟩

theorem call_ne_reset {v : Value} (h : Turn uniform r c (.ok (.object v)) r') : c ≠ .reset := by
  rintro rfl
  cases h

theorem serial (h : Turn uniform r c reply r') (hc : c ≠ .reset) : r'.ledger.serial = r.ledger.serial := by
  cases h with
  | reset => exact absurd rfl hc
  | remembered | configured | added => rfl
  | _ => rw [ledger_ensure]

theorem serial_reset (h : Turn uniform r .reset reply r') : r'.ledger.serial = r.opened := by
  cases h
  rfl

theorem opened_le (h : Turn uniform r c reply r') : r.opened ≤ r'.opened := by
  cases h with
  | reset | remembered => exact Nat.le_refl _
  | _ => exact opened_le_ensure r

end Turn

end

end Register

namespace Action

open Register

def method : Method Factory → Action (Reply Factory)
  | .register name f => do
    let _ ← perform (.register name f)
    pure .done
  | .get name => do pure (.factory (← onRegister fun r => r.get name))
  | .names => do pure (.names (← onRegister Register.names))

def answer : Call Factory → Action (Reply Factory)
  | .object => do pure (.object (← perform .registerObject))
  | .configure => do pure (.object (← perform .configure))
  | .reset => do
    let _ ← perform .reset
    pure .done
  | .method none m => method m
  | .method (some v) m => do
    match ← object? v with
    | some (.register _ _) => method m
    | _ => fail .noAttribute

end Action

namespace Session

def ask (s : Session) (c : Register.Call Factory) : Except Fault (Register.Reply Factory) × Session :=
  (Action.answer c).run.run s

theorem run_bind {α β : Type} (x : Action α) (f : α → Action β) (s : Session) :
    (x >>= f).run.run s =
      match x.run.run s with
      | (.ok a, t) => (f a).run.run t
      | (.error e, t) => (.error e, t) := by
  show (ExceptT.bindCont f (x.run.run s).1).run (x.run.run s).2 = _
  cases x.run.run s with
  | mk result t => cases result <;> rfl

theorem run_get (s : Session) : (get : Action Session).run.run s = (.ok s, s) := rfl

theorem run_onRegister {α : Type} (f : Register Factory → Register Factory × Except Fault α) (s : Session) :
    (Action.onRegister f).run.run s =
      ((f s.register).2, { s with register := (f s.register).1 }) := rfl

/-! ## Objects -/

def Lists (s : Session) (serials : List Nat) : Prop :=
  s.store.objects = serials.map fun n => .register n []

def Shows (s : Session) (serials : List Nat) (n : Nat) (v : Value) : Prop :=
  ∃ later, s.Lists (serials ++ later) ∧ (∀ m ∈ later, m = n) ∧
    n ∈ serials ++ later ∧ v = .handle ((serials ++ later).idxOf n)

theorem run_find (s : Session) (p : Object → Bool) (x : Object) :
    (Action.find p x).run.run s =
      match s.store.objects.findIdx? p with
      | some h => (.ok (.handle h), s)
      | none => (.ok (.handle s.store.next), { s with store := s.store.push x }) := by
  show ((match s.store.objects.findIdx? p with
    | some h => pure (.handle h)
    | none => Action.make x : Action Value)).run.run s = _
  cases s.store.objects.findIdx? p <;> rfl

theorem Lists.findIdx? {s : Session} {serials : List Nat} (hs : s.Lists serials) {n : Nat}
    {p : Object → Bool} (hp : ∀ m, p (.register m []) = (m == n)) :
    s.store.objects.findIdx? p = serials.findIdx? (· == n) := by
  rw [hs, List.findIdx?_map]
  exact congrArg serials.findIdx? (funext hp)

theorem run_registerHandle {s : Session} {serials : List Nat} (hs : s.Lists serials) (n : Nat) :
    ∃ v t, (Action.registerHandle n).run.run s = (.ok v, t) ∧ t.register = s.register ∧
      t.Shows serials n v := by
  unfold Action.registerHandle
  rw [run_find, hs.findIdx? fun m => rfl]
  by_cases hn : n ∈ serials
  · have hi : serials.findIdx? (· == n) = some (serials.idxOf n) :=
      List.findIdx?_eq_some_of_exists ⟨n, hn, beq_self_eq_true n⟩
    rw [hi]
    refine ⟨_, s, rfl, rfl, [], ?_⟩
    rw [List.append_nil]
    exact ⟨hs, by simp, hn, rfl⟩
  · have hi : serials.findIdx? (· == n) = none := by
      rw [List.findIdx?_eq_none_iff]
      intro m hm
      exact beq_false_of_ne fun h => hn (h ▸ hm)
    rw [hi]
    refine ⟨_, _, rfl, rfl, [n], ?_, by simp, by simp, ?_⟩
    · simp only [Lists, Store.push, List.map_append, List.map_cons, List.map_nil]
      rw [hs]
    · have hl : s.store.objects.length = serials.length := by rw [hs, List.length_map]
      rw [List.idxOf_append_of_notMem hn, Store.next, hl]
      simp

theorem ask_method_object {s : Session} {v : Value} {n : Nat} {notes : Notes}
    (h : s.store.objectOf? v = some (.register n notes)) (m : Register.Method Factory) :
    s.ask (.method (some v) m) = s.ask (.method none m) := by
  show ((match s.store.objectOf? v with
    | some (.register _ _) => Action.method m
    | _ => Action.fail .noAttribute : Action (Register.Reply Factory))).run.run s = _
  rw [h]
  rfl

theorem ask_object {s : Session} {serials : List Nat} (hs : s.Lists serials) :
    ∃ v, (s.ask .object).1 = .ok (.object v) ∧ (s.ask .object).2.register = s.register.ensure ∧
      (s.ask .object).2.Shows serials s.register.ledger.serial v := by
  obtain ⟨v, t, ht, hr, hv⟩ := run_registerHandle
    (s := { s with register := s.register.ensure }) hs s.register.ensure.ledger.serial
  have h : s.ask .object = (.ok (.object v), t) := by
    show ((do pure (.object (← Action.registerHandle s.register.ensure.ledger.serial)) :
      Action (Register.Reply Factory))).run.run { s with register := s.register.ensure } = _
    rw [run_bind, ht]
    rfl
  rw [h]
  rw [Register.ledger_ensure] at hv
  exact ⟨v, rfl, hr, hv⟩

theorem run_configure (s : Session) : ∃ log, Action.configure.run.run s =
    match (s.register.configure .uniform).2 with
    | .ok n => (Action.registerHandle n).run.run { s with register := (s.register.configure .uniform).1, log }
    | .error e => (.error e, { s with register := (s.register.configure .uniform).1 }) := by
  unfold Action.configure
  cases he : (s.register.configure .uniform).2 with
  | error e => exact ⟨s.log, by simp only [run_bind, run_get, run_onRegister, he]⟩
  | ok n =>
    simp only [run_bind, run_get, run_onRegister, he]
    cases s.register.configured.isSome with
    | true => exact ⟨s.log, rfl⟩
    | false => exact ⟨s.log ++ [.registered Register.builtin], rfl⟩

theorem ask_configure_of_ok {s : Session} {serials : List Nat} (hs : s.Lists serials) {n : Nat}
    (hn : (s.register.configure .uniform).2 = .ok n) :
    ∃ v, (s.ask .configure).1 = .ok (.object v) ∧
      (s.ask .configure).2.register = (s.register.configure .uniform).1 ∧
      (s.ask .configure).2.Shows serials n v := by
  obtain ⟨log, hc⟩ := run_configure s
  obtain ⟨v, t, ht, hr, hv⟩ := run_registerHandle
    (s := { s with register := (s.register.configure .uniform).1, log }) hs n
  have h : s.ask .configure = (.ok (.object v), t) := by
    unfold ask Action.answer Action.perform
    rw [run_bind, hc, hn]
    simp only [ht]
    rfl
  rw [h]
  exact ⟨v, rfl, hr, hv⟩

theorem ask_configure_of_error {s : Session} {e : Fault} (he : (s.register.configure .uniform).2 = .error e) :
    s.ask .configure = (.error e, { s with register := (s.register.configure .uniform).1 }) := by
  obtain ⟨log, hc⟩ := run_configure s
  unfold ask Action.answer Action.perform
  rw [run_bind, hc, he]

theorem ask_register (s : Session) (name : String) (f : Factory) : ∃ log,
    s.ask (.method none (.register name f)) = ((s.register.register name f).2.map fun _ => .done,
      { s with register := (s.register.register name f).1, log }) := by
  unfold ask Action.answer Action.method Action.perform Action.register
  rw [run_bind, run_bind, run_onRegister]
  cases (s.register.register name f).2 with
  | ok u => exact ⟨s.log ++ [.registered name], rfl⟩
  | error e => exact ⟨s.log, rfl⟩

theorem ask_get (s : Session) (name : String) :
    s.ask (.method none (.get name)) =
      ((s.register.get name).2.map .factory, { s with register := (s.register.get name).1 }) := by
  unfold ask Action.answer Action.method
  rw [run_bind, run_onRegister]
  cases (s.register.get name).2 <;> rfl

theorem ask_names (s : Session) :
    s.ask (.method none .names) = (s.register.names.2.map .names, { s with register := s.register.names.1 }) := by
  unfold ask Action.answer Action.method
  rw [run_bind, run_onRegister]
  cases s.register.names.2 <;> rfl

/-! ## All calls -/

def Grants (s : Session) (on : Option Value) : Prop :=
  ∀ v, on = some v → ∃ n notes, s.store.objectOf? v = some (.register n notes)

theorem ask_method {s : Session} {on : Option Value} (hc : s.Grants on) (m : Register.Method Factory) :
    s.ask (.method on m) = s.ask (.method none m) := by
  cases on with
  | none => rfl
  | some v =>
    obtain ⟨n, notes, hv⟩ := hc v rfl
    exact ask_method_object hv m

/-- The objects after a reply, where there were those of a list of ledgers before. An
object that the reply gives is that of the ledger with serial number `n`. -/
def Tracks (s : Session) (serials : List Nat) (n : Nat) : Except Fault (Register.Reply Factory) → Prop
  | .ok (.object v) => s.Shows serials n v
  | _ => s.Lists serials

theorem Tracks.lists {s : Session} {serials : List Nat} {n : Nat} {reply : Except Fault (Register.Reply Factory)}
    (h : s.Tracks serials n reply) :
    ∃ later, s.Lists (serials ++ later) ∧ (∀ m ∈ later, m = n ∧ ∃ v, reply = .ok (.object v)) ∧
      ∀ v, reply = .ok (.object v) →
        n ∈ serials ++ later ∧ v = .handle ((serials ++ later).idxOf n) := by
  by_cases hr : ∃ v, reply = .ok (.object v)
  · obtain ⟨v, rfl⟩ := hr
    obtain ⟨later, hl, hm, hn, hv⟩ := h
    refine ⟨later, hl, fun m hm' => ⟨hm m hm', v, rfl⟩, fun w hw => ?_⟩
    cases hw
    exact ⟨hn, hv⟩
  · have hl : s.Lists serials := by
      unfold Tracks at h
      split at h
      · exact absurd ⟨_, rfl⟩ hr
      · exact h
    exact ⟨[], by rwa [List.append_nil], nofun, fun v hv => absurd ⟨v, hv⟩ hr⟩

theorem Lists.objectOf? {s : Session} {serials : List Nat} (hs : s.Lists serials) {n : Nat}
    (hn : n ∈ serials) : s.store.objectOf? (.handle (serials.idxOf n)) = some (.register n []) := by
  show s.store.objects[serials.idxOf n]? = _
  rw [hs, List.getElem?_map, List.getElem?_idxOf hn]
  rfl

open Register in
/-- What a call does, if the ledger that is remembered is the current one. -/
theorem ask_spec {s : Session} {serials : List Nat} (hs : s.Lists serials) {c : Call Factory} (hc : s.Grants c.on)
    (hk : ∀ n, s.register.configured = some n → n = s.register.ledger.serial) :
    Turn .uniform s.register c (s.ask c).1 (s.ask c).2.register ∧
      (s.ask c).2.Tracks serials s.register.ledger.serial (s.ask c).1 := by
  cases c with
  | object =>
    obtain ⟨v, hv, hr, hl⟩ := ask_object hs
    rw [hv, hr]
    exact ⟨.object v, hl⟩
  | configure =>
    cases hn : s.register.configured with
    | some n =>
      have hf := configure_of_some hn Factory.uniform
      obtain ⟨v, hv, hr, hl⟩ := ask_configure_of_ok hs (congrArg Prod.snd hf)
      rw [hv, hr, hf, ← hk n hn]
      exact ⟨.remembered v hn, hl⟩
    | none =>
      cases hb : s.register.find? builtin with
      | some f =>
        have hf := configure_of_occupied hn hb .uniform
        rw [ask_configure_of_error (congrArg Prod.snd hf), hf]
        exact ⟨.occupied hn hb, hs⟩
      | none =>
        have hf := configure_of_none hn hb .uniform
        obtain ⟨v, hv, hr, hl⟩ := ask_configure_of_ok hs (congrArg Prod.snd hf)
        rw [hv, hr, hf]
        exact ⟨.configured v hn hb, hl⟩
  | reset => exact ⟨.reset, hs⟩
  | method on m =>
    have hm : s.ask (.method on m) = s.ask (.method none m) := ask_method hc m
    rw [hm]
    cases m with
    | register name f =>
      obtain ⟨log, hr⟩ := ask_register s name f
      rw [hr]
      cases hn : s.register.find? name with
      | none => rw [register_of_none hn]; exact ⟨.added f hn, hs⟩
      | some g => rw [register_of_some hn]; exact ⟨.duplicate f hn, hs⟩
    | get name =>
      rw [ask_get]
      cases hn : s.register.find? name with
      | none => rw [get_of_none hn]; exact ⟨.unknown hn, hs⟩
      | some f => rw [get_of_some hn]; exact ⟨.found hn, hs⟩
    | names => rw [ask_names, names_eq]; exact ⟨.names, hs⟩

end Session

end StreamStat
