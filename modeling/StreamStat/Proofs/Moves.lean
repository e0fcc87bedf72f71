import StreamStat.Account.Class
import StreamStat.Proofs.Calls

/-!
# Moves

What a program does with accounts: it opens, views and copies them and gives them
samples, in any order. Other objects may be listed in between, as samples can hold them.
-/

namespace StreamStat

def Object.isPassive : Object → Bool
  | .account _ | .tally _ => false
  | _ => true

inductive Move where
  | create (c : AccountClass)
  | adapt (adoptee : Value) (converter : Converter)
  | copy (handle : Nat)
  | feed (target v : Value)
  | accumulate (targets values : List Value)
  | list (x : Object) (passive : x.isPassive = true)

namespace Store

/-! ## Moves and their traces -/

def tracedAll (targets : List Value) : List Value → Store → Traced
  | [], s => .quiet ⟨s, none⟩
  | v :: vs, s =>
    (tracedEach (fun target s => s.traced false target (v.amendBy s.changes)) targets s).andThen
      (tracedAll targets vs)

def perform (s : Store) : Move → Traced
  | .create c => .quiet ⟨s.create c, none⟩
  | .adapt adoptee c => .quiet ⟨s.adapt adoptee c, none⟩
  | .copy handle =>
    match s.copy handle with
    | .ok t => .quiet ⟨t, none⟩
    | .error f => .quiet ⟨s, some f⟩
  | .feed target v => s.traced false target v
  | .accumulate targets values =>
    if targets.isEmpty then .quiet ⟨s, some (.argument .noAccumulators)⟩ else tracedAll targets values s
  | .list x _ => .quiet ⟨s.push x, none⟩

def after (s : Store) (ms : List Move) : Store := ms.foldl (fun s m => (s.perform m).outcome.store) s

def eventsOf : List Move → Store → List Event
  | [], _ => []
  | m :: ms, s => (s.perform m).events ++ eventsOf ms (s.perform m).outcome.store

theorem tracedAll_outcome (targets : List Value) :
    ∀ vs s, (tracedAll targets vs s).outcome = (feedAll targets vs s).outcome
  | [], _ => rfl
  | v :: vs, s => by
    have each : (tracedEach (fun target s => s.traced false target (v.amendBy s.changes)) targets s).outcome =
        forEach (fun target s => s.feed target (v.amendBy s.changes)) targets s :=
      tracedEach_outcome (fun t s => traced_outcome s false t _) targets s
    simp only [tracedAll, feedAll, Traced.andThen_outcome, each, Outcome.andThen]
    split
    · exact tracedAll_outcome targets vs _
    · rfl

theorem perform_accumulate (s : Store) (targets values : List Value) :
    (s.perform (.accumulate targets values)).outcome = (accumulate targets values s).outcome := by
  simp only [perform, accumulate]
  split
  · rfl
  · exact tracedAll_outcome targets values s

theorem steps_tracedAll (targets : List Value) :
    ∀ vs s, s.Tallyless → Steps s (tracedAll targets vs s).events (tracedAll targets vs s).outcome.store
  | [], s, _ => .refl s
  | v :: vs, s, hn => by
    have h := steps_tracedEach (f := fun target s => s.traced false target (v.amendBy s.changes))
      (fun t s hn => steps_traced hn false t _) targets s hn
    exact steps_andThen h (steps_tracedAll targets vs _ (h.tallyless hn))

/-! ## What a move can do -/

end Store

def Move.listed? (s : Store) : Move → Option Object
  | .create c => some (.account (.opened c s.tapes.length))
  | .adapt adoptee c => some (.account (.view adoptee c))
  | .copy handle => (s.account? handle).map .account
  | .list x _ => some x
  | .feed _ _ | .accumulate _ _ => none

/-- Whether a move refers to nothing but objects that are there. -/
def Move.Fits (s : Store) : Move → Prop
  | .adapt adoptee c => Store.Older s.next adoptee ∧ ∀ t ∈ c.taps, Store.Older s.next t
  | _ => True

namespace Store

/-- A move lists an object and nothing else happens, or it is a row of steps. -/
theorem perform_spec {s : Store} (hn : s.Tallyless) (m : Move) :
    (∃ x, m.listed? s = some x ∧ (s.perform m).events = [] ∧
      (s.perform m).outcome.store.objects = s.objects ++ [x]) ∨
    m.listed? s = none ∧ Steps s (s.perform m).events (s.perform m).outcome.store := by
  cases m with
  | create c => exact .inl ⟨_, rfl, rfl, by cases c <;> rfl⟩
  | adapt adoptee c => exact .inl ⟨_, rfl, rfl, rfl⟩
  | copy handle =>
    simp only [perform, Store.copy, Move.listed?]
    cases ha : s.account? handle with
    | none => exact .inr ⟨rfl, .refl s⟩
    | some a => exact .inl ⟨_, rfl, rfl, rfl⟩
  | feed target v => exact .inr ⟨rfl, steps_traced hn false target v⟩
  | accumulate targets values =>
    refine .inr ⟨rfl, ?_⟩
    simp only [perform]
    split
    · exact .refl s
    · exact steps_tracedAll targets values s hn
  | list x passive => exact .inl ⟨x, rfl, rfl, rfl⟩

theorem listed_ne_tally {s : Store} {m : Move} {x : Object} (hx : m.listed? s = some x) (t : Tally) :
    x ≠ .tally t := by
  rintro rfl
  cases m with
  | list y passive => cases hx; cases passive
  | copy handle => cases ha : s.account? handle <;> simp [Move.listed?, ha] at hx
  | _ => simp [Move.listed?] at hx

/-- A view that a move lists is a new one or the copy of one that is there. -/
theorem listed_view {s : Store} {m : Move} {a : Account} {adoptee : Value} {c : Converter}
    (hx : m.listed? s = some (.account a)) (hb : a.body = .view adoptee c) :
    m = .adapt adoptee c ∨ ∃ k, s.link? k = some (adoptee, c) := by
  cases m with
  | create d =>
    cases hx
    cases d with
    | statistic i logged => cases i <;> cases hb
    | _ => cases hb
  | adapt adoptee' c' =>
    cases hx
    cases hb
    exact .inl rfl
  | copy handle =>
    simp only [Move.listed?, Option.map_eq_some_iff, Object.account.injEq] at hx
    obtain ⟨b, hb', rfl⟩ := hx
    exact .inr ⟨handle, link?_eq_some.mpr ⟨b, hb', hb⟩⟩
  | list y passive => cases hx; cases passive
  | _ => cases hx

/-! ## What moves keep -/

theorem object?_append {s t : Store} {x : Object} (ht : t.objects = s.objects ++ [x]) (h : Nat) :
    t.object? h = if h = s.objects.length then some x else s.object? h := by
  simp only [object?, ht, List.getElem?_append]
  split
  · rw [if_neg (by omega)]
  · rw [List.getElem?_singleton]
    split
    · rw [if_pos (by omega)]
    · rw [if_neg (by omega), List.getElem?_eq_none (by omega)]

theorem Tallyless.append {s t : Store} {x : Object} (hn : s.Tallyless) (ht : t.objects = s.objects ++ [x])
    (hx : ∀ u, x ≠ .tally u) : t.Tallyless := by
  intro h u hu
  rw [object?_append ht] at hu
  split at hu
  · exact hx u (Option.some.inj hu)
  · exact hn h u hu

theorem tallyless_perform {s : Store} (hn : s.Tallyless) (m : Move) :
    (s.perform m).outcome.store.Tallyless := by
  rcases perform_spec hn m with ⟨x, hx, _, ht⟩ | ⟨_, hs⟩
  · exact hn.append ht (listed_ne_tally hx)
  · exact hs.tallyless hn

/-- What a view refers to after a move, it or one it is copied from has referred to before, or the
move has made it. -/
theorem link?_perform {s : Store} (hn : s.Tallyless) {m : Move} {h : Nat} {adoptee : Value} {c : Converter}
    (hl : (s.perform m).outcome.store.link? h = some (adoptee, c)) :
    (∃ k ≤ h, s.link? k = some (adoptee, c)) ∨ (h = s.next ∧ m = .adapt adoptee c) := by
  rcases perform_spec hn m with ⟨x, hx, _, ht⟩ | ⟨_, hst⟩
  · obtain ⟨a, ha, hb⟩ := link?_eq_some.mp hl
    rw [account?_eq_some, object?_append ht] at ha
    split at ha
    · rename_i hh
      cases ha
      rcases listed_view hx hb with rfl | ⟨k, hk⟩
      · exact .inr ⟨hh, rfl⟩
      · obtain ⟨_, hk', _⟩ := link?_eq_some.mp hk
        exact .inl ⟨k, hh ▸ Nat.le_of_lt (lt_of_account? hk'), hk⟩
    · exact .inl ⟨h, Nat.le_refl h, link?_eq_some.mpr ⟨a, account?_eq_some.mpr ha, hb⟩⟩
  · exact .inl ⟨h, Nat.le_refl h, (hst.link? h).symm.trans hl⟩

theorem layered_perform {s : Store} (hs : s.Sound) {m : Move} (hm : m.Fits s) :
    (s.perform m).outcome.store.Layered := by
  intro h adoptee c hl
  rcases link?_perform hs.tallyless hl with ⟨k, hk, hl⟩ | ⟨rfl, rfl⟩
  · obtain ⟨hadoptee, htaps⟩ := hs.layered k adoptee c hl
    exact ⟨hadoptee.mono hk, fun t ht => (htaps t ht).mono hk⟩
  · exact hm

inductive Built : Store → Prop where
  | empty : Built .empty
  | perform {s : Store} {m : Move} : Built s → m.Fits s → Built (s.perform m).outcome.store

theorem object?_empty (h : Nat) : Store.empty.object? h = none := rfl

theorem tallyless_empty : Store.empty.Tallyless := fun h t => by simp [object?_empty]

theorem sound_empty : Store.empty.Sound :=
  ⟨tallyless_empty, fun _ _ _ hl => by cases hl⟩

theorem Built.sound {s : Store} (h : Built s) : s.Sound := by
  induction h with
  | empty => exact sound_empty
  | perform _ hm ih => exact ⟨tallyless_perform ih.tallyless _, layered_perform ih hm⟩

/-- The events of a move tell what becomes of the objects that were there before. -/
theorem object?_perform {s : Store} (hn : s.Tallyless) (m : Move) {h : Nat} {x : Object}
    (hx : s.object? h = some x) :
    (s.perform m).outcome.store.object? h = some (x.history h (s.perform m).events) := by
  rcases perform_spec hn m with ⟨y, _, he, ht⟩ | ⟨_, hs⟩
  · rw [object?_append ht, he, Object.history_nil,
      if_neg (Nat.ne_of_lt (List.getElem?_eq_some_iff.mp hx).1), hx]
  · rw [hs.object? h, hx]; rfl

/-- The events of a run tell what becomes of the objects that were there before. -/
theorem object?_after {s : Store} (hn : s.Tallyless) (ms : List Move) {h : Nat} {x : Object}
    (hx : s.object? h = some x) : (s.after ms).object? h = some (x.history h (eventsOf ms s)) := by
  induction ms generalizing s x with
  | nil => rw [eventsOf, Object.history_nil]; exact hx
  | cons m ms ih =>
    rw [eventsOf, Object.history_append]
    exact ih (tallyless_perform hn m) (object?_perform hn m hx)

end Store

end StreamStat
