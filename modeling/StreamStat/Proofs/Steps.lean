import StreamStat.Proofs.Trace

/-!
# What a call does, step by step

Among accounts a call does three kinds of things: it gives out marks, an account that is
no view takes a sample, and a view counts a call that has come back. The events of a
trace therefore tell everything that becomes of an object (`Steps.object?`).
-/

namespace StreamStat

/-! ## What a sample does to an account -/

inductive Body.Takes (o : ObjectView) (n : Nat) (v : Value) : Body → Body → Prop where
  | counter : Takes o n v .counter .counter
  | recorder {tape : Nat} : Takes o n v (.recorder tape) (.recorder tape)
  | view {adoptee : Value} {c : Converter} : Takes o n v (.view adoptee c) (.view adoptee c)
  | min {least less : Value} : keepLess o least v = .ok less → Takes o n v (.min least) (.min less)
  | max {greatest more : Value} : keepGreater o greatest v = .ok more → Takes o n v (.max greatest) (.max more)
  | minMax {least greatest less more : Value} :
      keepLess o least v = .ok less → keepGreater o greatest v = .ok more →
        Takes o n v (.minMax least greatest) (.minMax less more)
  | mean {m x : Double} : v.toDouble = .ok x → Takes o n v (.mean m) (.mean (nextMean m n x))
  | variance {m : Moments Double} {x : Double} :
      v.toDouble = .ok x → Takes o n v (.variance m) (.variance (m.push n x))

namespace Account

theorem keep_body {a : Account} {b : Body} (h : a.body = b) : a.keep b = a := by
  cases a
  cases h
  rfl

/-- All that giving a sample to an account can do: it is taken and counted, it is refused, or
it is refused when the lesser of two extremes has been kept. -/
theorem receive_cases (o : ObjectView) (mark : Nat) (a : Account) (v : Value) :
    (∃ body stamp, a.body.Takes o (a.samples + 1) v body ∧
      a.receive o mark v = ({ (a.keep body).count with stamp := stamp }, none)) ∨
    (∃ f, a.receive o mark v = (a, some f)) ∨
    ∃ least greatest less f, a.body = .minMax least greatest ∧ keepLess o least v = .ok less ∧
      keepGreater o greatest v = .error f ∧ a.receive o mark v = (a.keep (.minMax less greatest), some f) := by
  unfold receive
  cases hb : a.body with
  | counter => exact .inl ⟨_, a.stamp, .counter, by rw [keep_body hb]; rfl⟩
  | recorder tape => exact .inl ⟨_, a.stamp, .recorder, by rw [keep_body hb]; rfl⟩
  | view adoptee c => exact .inl ⟨_, a.stamp, .view, by rw [keep_body hb]; rfl⟩
  | min least =>
    cases h : keepLess o least v with
    | error f => exact .inr (.inl ⟨f, by simp only [h]⟩)
    | ok less => exact .inl ⟨_, a.stamp, .min h, by simp only [h]; rfl⟩
  | max greatest =>
    cases h : keepGreater o greatest v with
    | error f => exact .inr (.inl ⟨f, by simp only [h]⟩)
    | ok more => exact .inl ⟨_, a.stamp, .max h, by simp only [h]; rfl⟩
  | minMax least greatest =>
    cases hl : keepLess o least v with
    | error f => exact .inr (.inl ⟨f, by simp only [hl]⟩)
    | ok less =>
      cases hg : keepGreater o greatest v with
      | error f => exact .inr (.inr ⟨least, greatest, less, f, rfl, hl, hg, by simp only [hl, hg]⟩)
      | ok more => exact .inl ⟨_, a.stamp, .minMax hl hg, by simp only [hl, hg]; rfl⟩
  | mean m =>
    cases h : v.toDouble with
    | error f => exact .inr (.inl ⟨f, rfl⟩)
    | ok x => exact .inl ⟨_, mark, .mean h, rfl⟩
  | variance m =>
    cases h : v.toDouble with
    | error f => exact .inr (.inl ⟨f, rfl⟩)
    | ok x => exact .inl ⟨_, mark, .variance h, rfl⟩

/-! ## Accounts under events -/

def isView (a : Account) : Bool :=
  match a.body with
  | .view _ _ => true
  | _ => false

theorem isView_of_body {a : Account} {adoptee : Value} {c : Converter} (hb : a.body = .view adoptee c) :
    a.isView = true := by
  simp [isView, hb]

theorem isView_receive (o : ObjectView) (mark : Nat) (a : Account) (v : Value) :
    (a.receive o mark v).1.isView = a.isView := by
  rcases receive_cases o mark a v with ⟨body, stamp, ht, h⟩ | ⟨f, h⟩ | ⟨least, greatest, less, f, hb, _, _, h⟩
  · rw [h]
    unfold isView
    generalize a.body = b at ht
    cases ht <;> rfl
  · rw [h]
  · rw [h, isView, isView, hb]
    rfl

theorem body_receive_of_view {a : Account} {adoptee : Value} {c : Converter} (hb : a.body = .view adoptee c)
    (o : ObjectView) (mark : Nat) (v : Value) : (a.receive o mark v).1.body = .view adoptee c := by
  simp [receive, hb, count]

def undergo (handle : Nat) (a : Account) : Event → Account
  | .handed h sight mark v => if h = handle then (a.receive sight mark v).1 else a
  | .returned h _ => if h = handle ∧ a.isView then a.count else a

def history (handle : Nat) (a : Account) (events : List Event) : Account :=
  events.foldl (undergo handle) a

theorem history_append (handle : Nat) (a : Account) (es fs : List Event) :
    a.history handle (es ++ fs) = (a.history handle es).history handle fs :=
  List.foldl_append

theorem isView_undergo (handle : Nat) (a : Account) (e : Event) : (a.undergo handle e).isView = a.isView := by
  cases e with
  | handed h sight mark v =>
    simp only [undergo]; split
    · exact isView_receive sight mark a v
    · rfl
  | returned h forwarded => simp only [undergo]; split <;> rfl

theorem isView_history (handle : Nat) (a : Account) (es : List Event) :
    (a.history handle es).isView = a.isView := by
  induction es generalizing a with
  | nil => rfl
  | cons e es ih => exact (ih _).trans (isView_undergo handle a e)

theorem body_history_of_view {adoptee : Value} {c : Converter} (handle : Nat) (es : List Event) :
    ∀ {a : Account}, a.body = .view adoptee c → (a.history handle es).body = .view adoptee c := by
  induction es with
  | nil => exact fun hb => hb
  | cons e es ih =>
    intro a hb
    refine ih (a := a.undergo handle e) ?_
    cases e with
    | handed h sight mark v =>
      simp only [undergo]; split
      · exact body_receive_of_view hb sight mark v
      · exact hb
    | returned h forwarded => simp only [undergo]; split <;> exact hb

end Account

def Object.history (handle : Nat) (events : List Event) : Object → Object
  | .account a => .account (a.history handle events)
  | x => x

theorem Object.history_append (handle : Nat) (es fs : List Event) (x : Object) :
    x.history handle (es ++ fs) = (x.history handle es).history handle fs := by
  cases x <;> simp [history, Account.history_append]

theorem Object.history_nil (handle : Nat) (x : Object) : x.history handle [] = x := by
  cases x <;> rfl

namespace Store

/-! ## Objects of a store -/

theorem account?_eq_some {s : Store} {h : Nat} {a : Account} :
    s.account? h = some a ↔ s.object? h = some (.account a) := by
  unfold account?
  split <;> simp_all

theorem object?_reserve (s : Store) (n h : Nat) : (s.reserve n).object? h = s.object? h := rfl

theorem object?_put {s : Store} {h : Nat} {x : Object} (hx : s.object? h = some x) (y : Object) (k : Nat) :
    (s.put h y).object? k = if k = h then some y else s.object? k := by
  have hl : h < s.objects.length := (List.getElem?_eq_some_iff.mp hx).1
  simp only [object?, put, List.getElem?_set]
  by_cases hk : h = k
  · subst hk; simp [hl]
  · simp [hk, Ne.symm hk]

theorem viewWithin_congr {s t : Store} (h : s.objects = t.objects) :
    ∀ depth, s.viewWithin depth = t.viewWithin depth
  | 0 => rfl
  | depth + 1 => by simp only [viewWithin, viewWithin_congr h depth, object?, h]

theorem view_congr {s t : Store} (h : s.objects = t.objects) : s.view = t.view := by
  unfold view
  rw [h, viewWithin_congr h]

/-- What an account takes, and what becomes of it by that. -/
theorem absorb_spec (s : Store) (h : Nat) (a : Account) (v : Value) :
    (s.absorb h a v).fault = (a.receive s.view (s.marks + 1) (v.stamp s.marks)).2 ∧
      (s.absorb h a v).store.objects =
        s.objects.set h (.account (a.receive s.view (s.marks + 1) (v.stamp s.marks)).1) := by
  have hv : (s.reserve 1).view = s.view := view_congr rfl
  unfold absorb stamp
  simp only [hv]
  split <;> exact ⟨rfl, rfl⟩

theorem object?_absorb {s : Store} {h : Nat} {a : Account} (ha : s.account? h = some a) (v : Value) (k : Nat) :
    (s.absorb h a v).store.object? k =
      if k = h then some (.account (a.receive s.view (s.marks + 1) (v.stamp s.marks)).1) else s.object? k := by
  rw [← object?_put (account?_eq_some.mp ha)]
  simp only [object?, (absorb_spec s h a v).2, put]

theorem object?_count {s : Store} {h : Nat} {a : Account} (ha : s.account? h = some a) (k : Nat) :
    (s.count h).object? k = if k = h then some (.account a.count) else s.object? k := by
  simp only [count, ha]
  exact object?_put (account?_eq_some.mp ha) _ k

/-! ## Steps -/

inductive Step : Store → List Event → Store → Prop where
  | reserve (s : Store) (n : Nat) : Step s [] (s.reserve n)
  | absorb {s : Store} {h : Nat} {a : Account} (forwarded : Bool) (v : Value) (ha : s.account? h = some a)
      (hv : a.isView = false) : Step s (s.tracedAbsorb h a forwarded v).events (s.absorb h a v).store
  | count {s : Store} {h : Nat} {a : Account} (forwarded : Bool) (ha : s.account? h = some a)
      (hv : a.isView = true) : Step s [.returned h forwarded] (s.count h)

inductive Steps : Store → List Event → Store → Prop where
  | refl (s : Store) : Steps s [] s
  | cons {s t u : Store} {es fs : List Event} : Step s es t → Steps t fs u → Steps s (es ++ fs) u

theorem Step.steps {s t : Store} {es : List Event} (h : Step s es t) : Steps s es t := by
  have := Steps.cons h (Steps.refl t)
  rwa [List.append_nil] at this

theorem Steps.trans {s t u : Store} {es fs : List Event} (h : Steps s es t) (h' : Steps t fs u) :
    Steps s (es ++ fs) u := by
  induction h with
  | refl => exact h'
  | cons hs _ ih => rw [List.append_assoc]; exact .cons hs (ih h')

theorem Step.object? {s t : Store} {es : List Event} (hs : Step s es t) (k : Nat) :
    t.object? k = (s.object? k).map (Object.history k es) := by
  cases hs with
  | reserve n => rw [object?_reserve]; cases s.object? k <;> simp [Object.history_nil]
  | @absorb h a forwarded v ha hv =>
    rw [object?_absorb ha]
    have hr := (Account.isView_receive s.view (s.marks + 1) a (v.stamp s.marks)).trans hv
    by_cases hk : k = h
    · subst hk
      rw [if_pos rfl, account?_eq_some.mp ha]
      simp only [Option.map_some, Object.history, tracedAbsorb, Account.history]
      split <;> simp [Account.undergo, hr]
    · rw [if_neg hk]
      cases s.object? k with
      | none => rfl
      | some x =>
        cases x with
        | account b =>
          simp only [Option.map_some, Object.history, tracedAbsorb, Account.history]
          split <;> simp [Account.undergo, Ne.symm hk]
        | _ => rfl
  | @count h a forwarded ha hv =>
    rw [object?_count ha]
    by_cases hk : k = h
    · subst hk
      simp [account?_eq_some.mp ha, Object.history, Account.history, Account.undergo, hv]
    · rw [if_neg hk]
      cases s.object? k with
      | none => rfl
      | some x =>
        cases x with
        | account b => simp [Object.history, Account.history, Account.undergo, Ne.symm hk]
        | _ => rfl

/-- The events of a call tell what becomes of every object. -/
theorem Steps.object? {s t : Store} {es : List Event} (hs : Steps s es t) (k : Nat) :
    t.object? k = (s.object? k).map (Object.history k es) := by
  induction hs with
  | refl s => cases s.object? k <;> simp [Object.history_nil]
  | @cons s t u es fs hs _ ih =>
    rw [ih, hs.object? k, Option.map_map]
    congr 1
    funext x
    exact (Object.history_append k es fs x).symm

theorem Steps.account? {s t : Store} {es : List Event} (hs : Steps s es t) {k : Nat} {a : Account}
    (ha : s.account? k = some a) : t.account? k = some (a.history k es) := by
  rw [account?_eq_some] at ha ⊢
  rw [hs.object? k, ha]
  rfl

/-! ## Links -/

def link? (s : Store) (handle : Nat) : Option (Value × Converter) :=
  match (s.account? handle).map Account.body with
  | some (.view adoptee c) => some (adoptee, c)
  | _ => none

theorem link?_eq_some {s : Store} {h : Nat} {adoptee : Value} {c : Converter} :
    s.link? h = some (adoptee, c) ↔ ∃ a, s.account? h = some a ∧ a.body = .view adoptee c := by
  unfold link?
  constructor
  · intro hl
    split at hl
    · rename_i hb
      cases hl
      simpa using hb
    · cases hl
  · rintro ⟨a, ha, hb⟩
    simp [ha, hb]

theorem link?_of_base {s : Store} {h : Nat} {a : Account} (ha : s.account? h = some a) (hv : a.isView = false) :
    s.link? h = none := by
  simp only [link?, ha, Option.map_some]
  cases hb : a.body with
  | view adoptee c => rw [Account.isView_of_body hb] at hv; cases hv
  | _ => rfl

/-- A view goes on referring to the same things. -/
theorem Steps.link? {s t : Store} {es : List Event} (hs : Steps s es t) (k : Nat) : t.link? k = s.link? k := by
  cases ha : s.account? k with
  | none =>
    have ht : t.account? k = none := by
      simp only [Store.account?, hs.object? k] at ha ⊢
      cases hx : s.object? k with
      | none => rfl
      | some x => cases x <;> simp [hx, Object.history] at ha ⊢
    simp only [Store.link?, ha, ht]
  | some a =>
    have ht := hs.account? ha
    cases hb : a.body with
    | view adoptee c =>
      rw [link?_eq_some.mpr ⟨a, ha, hb⟩]
      exact link?_eq_some.mpr ⟨_, ht, Account.body_history_of_view k es hb⟩
    | _ =>
      have hv : a.isView = false := by simp [Account.isView, hb]
      rw [link?_of_base ha hv, link?_of_base ht ((Account.isView_history k a es).trans hv)]

end Store

end StreamStat
