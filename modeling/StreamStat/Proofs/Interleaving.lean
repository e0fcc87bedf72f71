import Mathlib.Data.List.Nodup
import Mathlib.Data.List.Pairwise
import Mathlib.Data.Set.Lattice
import Mathlib.Order.CompletePartialOrder
import StreamStat.Proofs.Lockstep

/-!
# Interleaved calls

However calls on accounts with disjoint footprints are interleaved, what becomes of a footprint is
what becomes of it if no account but its own is fed (`Shadowed.play`). Two interleavings of the same
calls therefore come back or fail alike, and leave the same (`sameHeap_of_shadowed`).
-/

namespace StreamStat

/-! ## What is known already -/

def old (m : Nat) (i j : Nat) : Prop := i = j ∧ i < m

theorem pairing_old {m : Nat} (hm : 0 < m) : Pairing m (old m) where
  pos := hm
  unique := by
    rintro i j k l ⟨rfl, _⟩ ⟨rfl, _⟩
    exact Iff.rfl
  old _ hk := ⟨rfl, hk⟩

def Value.Known (m : Nat) (U : Set Nat) (v : Value) : Prop := v.Like (old m) U v

def Account.Known (m : Nat) (U : Set Nat) (a : Account) : Prop := a.Like (old m) U a

section
variable {m n : Nat} {R S : Nat → Nat → Prop} {U : Set Nat}

namespace Pairing

variable (hR : Pairing m R)
include hR

theorem sub_old (i j : Nat) (h : StreamStat.old m i j) : R i j := by
  obtain ⟨rfl, hi⟩ := h
  exact hR.old i hi

theorem eq_of_left {i j : Nat} (h : R i j) (hi : i < m) : j = i := (hR.unique h (hR.old i hi)).mp rfl

theorem eq_of_right {i j : Nat} (h : R i j) (hj : j < m) : i = j := (hR.unique h (hR.old j hj)).mpr rfl

/-- What is old on one side is paired with itself through a third too. -/
theorem eq_through (hS : Pairing m S) {i j k : Nat} (hik : R i k) (hjk : S j k) : i < m ∨ j < m → i = j := by
  rintro (hi | hj)
  · obtain rfl := hR.eq_of_left hik hi
    exact (hS.eq_of_right hjk hi).symm
  · obtain rfl := hS.eq_of_left hjk hj
    exact hR.eq_of_right hik hj

theorem old_of_meet (hn : ∀ i j, R i j → i < n) (i j : Nat) : (∃ k, R i k ∧ R j k) → StreamStat.old n i j :=
  fun ⟨k, hik, hjk⟩ => ⟨(hR.unique hik hjk).mpr rfl, hn i k hik⟩

end Pairing

section
variable (hR : Pairing m R) (hn : ∀ i j, R i j → i < n)
include hR hn

theorem Value.LikeAll.known {vs ws : List Value} (h : LikeAll R U vs ws) : LikeAll (old n) U vs vs :=
  (h.meet h).mono (hR.old_of_meet hn) subset_rfl

theorem Account.Like.known {a b : Account} (h : a.Like R U b) : a.Known n U :=
  (h.meet h).mono (hR.old_of_meet hn) subset_rfl

end

end

namespace Store

/-- A store goes in step with itself. -/
theorem inStep_self {s : Store} {H F : Set Place} {U : Set Nat} (hm : 0 < s.marks)
    (haccounts : ∀ x a, .object x ∈ F → s.account? x = some a → a.Known s.marks U)
    (htapes : ∀ k, .tape k ∈ F → ∀ v ∈ s.tape k, v.Known s.marks U) : InStep s H U F (old s.marks) s s where
  left := .refl H s
  right := .refl H s
  pairing := pairing_old hm
  fresh := by
    rintro i j ⟨rfl, hj⟩
    exact ⟨hj, hj⟩
  object x hx := by
    cases ho : s.object? x with
    | none => exact .none
    | some y =>
      refine .some ?_
      cases y with
      | account a => exact .account (haccounts x a hx (account?_eq_some.mpr ho))
      | _ => exact .other fun a h => by cases h
  tape k hk := Value.likeAll_iff.mpr (List.forall₂_same.mpr (htapes k hk))

/-! ## Rows of calls -/

def play : List (Nat × Value) → Store → Outcome
  | [], s => ⟨s, none⟩
  | (h, v) :: cs, s => (s.feed (.handle h) v).andThen (play cs)

section
variable {s : Store} {h : Nat} {v : Value} (cs : List (Nat × Value))

theorem play_cons_of_fault {f : Fault} (hf : (s.feed (.handle h) v).fault = some f) :
    (play ((h, v) :: cs) s).fault = some f := by
  rw [play, Outcome.andThen, hf]
  exact hf

theorem play_cons_of_none (hf : (s.feed (.handle h) v).fault = none) :
    play ((h, v) :: cs) s = play cs (s.feed (.handle h) v).store := by
  rw [play, Outcome.andThen, hf]

end

theorem play_append (cs ds : List (Nat × Value)) (s : Store) : play (cs ++ ds) s = (play cs s).andThen (play ds) := by
  induction cs generalizing s with
  | nil => rfl
  | cons c cs ih =>
    simp only [List.cons_append, play, Outcome.andThen_assoc]
    congr 1
    funext t
    exact ih t

def byValue (targets : List Nat) (values : List Value) : List (Nat × Value) :=
  values.flatMap fun v => targets.map fun h => (h, v)

def byTarget (targets : List Nat) (values : List Value) : List (Nat × Value) :=
  targets.flatMap fun h => values.map fun v => (h, v)

theorem mem_byValue {targets : List Nat} {values : List Value} {c : Nat × Value} :
    c ∈ byValue targets values ↔ c.1 ∈ targets ∧ c.2 ∈ values := by
  simp only [byValue, List.mem_flatMap, List.mem_map]
  constructor
  · rintro ⟨v, hv, h, hh, rfl⟩
    exact ⟨hh, hv⟩
  · exact fun ⟨hh, hv⟩ => ⟨c.2, hv, c.1, hh, rfl⟩

theorem mem_byTarget {targets : List Nat} {values : List Value} {c : Nat × Value} :
    c ∈ byTarget targets values ↔ c.1 ∈ targets ∧ c.2 ∈ values := by
  simp only [byTarget, List.mem_flatMap, List.mem_map]
  constructor
  · rintro ⟨h, hh, v, hv, rfl⟩
    exact ⟨hh, hv⟩
  · exact fun ⟨hh, hv⟩ => ⟨c.1, hh, c.2, hv, rfl⟩

theorem byValue_singleton (h : Nat) (values : List Value) : byValue [h] values = values.map fun v => (h, v) :=
  List.map_eq_flatMap.symm

section
variable {targets : List Nat} (ht : targets.Nodup) {h : Nat} (hh : h ∈ targets)
include ht hh

theorem filter_byTarget (values : List Value) :
    (byTarget targets values).filter (fun c => c.1 = h) = values.map fun v => (h, v) := by
  have hone (k : Nat) : (values.map fun v => (k, v)).filter (fun c => c.1 = h) =
      if k = h then values.map fun v => (h, v) else [] := by
    by_cases hk : k = h <;> simp [hk]
  obtain ⟨as, bs, rfl⟩ := List.append_of_mem hh
  obtain ⟨_, hb, hab⟩ := List.nodup_append.mp ht
  have hnil {ks : List Nat} (hks : h ∉ ks) : (ks.flatMap fun k => if k = h then values.map fun v => (h, v) else []) = [] := by
    refine List.flatMap_eq_nil_iff.mpr fun k hk => if_neg ?_
    rintro rfl
    exact hks hk
  rw [byTarget, List.filter_flatMap]
  simp only [hone, List.flatMap_append, List.flatMap_cons, if_true]
  rw [hnil fun h' => hab h h' h (List.mem_cons_self ..) rfl, hnil (List.nodup_cons.mp hb).1, List.nil_append,
    List.append_nil]

theorem filter_byValue (values : List Value) :
    (byValue targets values).filter (fun c => c.1 = h) = values.map fun v => (h, v) := by
  have hone (v : Value) : (targets.map fun h => (h, v)).filter (fun c => c.1 = h) = [(h, v)] := by
    rw [show (targets.map fun h => (h, v)) = byTarget targets [v] from List.map_eq_flatMap]
    exact filter_byTarget ht hh [v]
  rw [byValue, List.filter_flatMap]
  simp only [hone]
  exact List.map_eq_flatMap.symm

end

theorem within_play {F : Set Place} {s : Store} (hn : s.Tallyless) (hc : s.Closed F) (cs : List (Nat × Value))
    (hcs : ∀ c ∈ cs, .object c.1 ∈ F) : Within F s (play cs s).store := by
  induction cs generalizing s with
  | nil => exact .refl F s
  | cons c cs ih =>
    rw [List.forall_mem_cons] at hcs
    have henter : Enters F (.handle c.1) := by
      rintro k ⟨⟩
      exact hcs.1
    have h := within_feed (v := c.2) hn hc henter
    exact within_andThen h fun _ => ih (h.tallyless hn) (hc.within h) hcs.2

section
variable {s : Store} (hn : s.Tallyless) (hc : s.changes = [])
include hn hc

omit hn hc in
theorem closed_univ (s : Store) : s.Closed Set.univ := ⟨fun _ _ => trivial, fun _ _ _ => trivial, fun _ _ => trivial⟩

/-- Calls change nothing in place, and bring in no tallies. -/
theorem feed_keeps (h : Nat) (v : Value) :
    (s.feed (.handle h) v).store.Tallyless ∧ (s.feed (.handle h) v).store.changes = [] := by
  have henter : Enters Set.univ (.handle h) := fun _ _ => trivial
  have hw := within_feed (v := v) hn s.closed_univ henter
  exact ⟨hw.tallyless hn, hw.changes.trans hc⟩

theorem play_keeps (cs : List (Nat × Value)) : (play cs s).store.Tallyless ∧ (play cs s).store.changes = [] := by
  have hw := within_play hn s.closed_univ cs fun _ _ => trivial
  exact ⟨hw.tallyless hn, hw.changes.trans hc⟩

theorem forEach_eq_play (v : Value) (targets : List Nat) :
    forEach (fun target s => s.feed target (v.amendBy s.changes)) (targets.map .handle) s =
      play (targets.map fun h => (h, v)) s := by
  induction targets generalizing s with
  | nil => rfl
  | cons h targets ih =>
    obtain ⟨hn', hc'⟩ := feed_keeps hn hc h v
    simp only [List.map_cons, forEach, play, hc, Value.amendBy, List.foldl_nil, Outcome.andThen]
    split
    · exact ih hn' hc'
    · rfl

theorem feedAll_eq_play (targets : List Nat) (values : List Value) :
    (feedAll (targets.map .handle) values s).outcome = play (byValue targets values) s := by
  induction values generalizing s with
  | nil => rfl
  | cons v values ih =>
    obtain ⟨hn', hc'⟩ := play_keeps hn hc (targets.map fun h => (h, v))
    simp only [byValue, List.flatMap_cons, play_append, feedAll, forEach_eq_play hn hc, Outcome.andThen]
    split
    · exact ih hn' hc'
    · rfl

theorem accumulate_eq_play {targets : List Nat} (ht : targets ≠ []) (values : List Value) :
    (accumulate (targets.map .handle) values s).outcome = play (byValue targets values) s := by
  rw [accumulate, if_neg (by simpa using ht), feedAll_eq_play hn hc]

theorem accumulateEach_eq_play (targets : List Nat) (values : List Value) :
    forEach (fun t u => (accumulate [t] values u).outcome) (targets.map .handle) s = play (byTarget targets values) s := by
  induction targets generalizing s with
  | nil => rfl
  | cons h targets ih =>
    have hone : (accumulate [.handle h] values s).outcome = play (values.map fun v => (h, v)) s := by
      rw [← byValue_singleton]
      exact accumulate_eq_play hn hc (List.cons_ne_nil h []) values
    obtain ⟨hn', hc'⟩ := play_keeps hn hc (values.map fun v => (h, v))
    simp only [List.map_cons, forEach, byTarget, List.flatMap_cons, play_append, hone, Outcome.andThen]
    split
    · exact ih hn' hc'
    · rfl

end

/-! ## Interleaved calls and their shadows -/

def footprints (s : Store) (targets : List Nat) : Set Place := {p | ∃ h ∈ targets, p ∈ s.footprint h}

theorem footprint_subset {s : Store} {targets : List Nat} {h : Nat} (hh : h ∈ targets) :
    s.footprint h ⊆ s.footprints targets := fun _ hp => ⟨h, hh, hp⟩

theorem closed_footprints (s : Store) (targets : List Nat) : s.Closed (s.footprints targets) where
  adoptee := fun ⟨h, hh, hi⟩ hl => ⟨h, hh, hi.adoptee hl⟩
  tap := fun ⟨h, hh, hi⟩ hl ht => ⟨h, hh, hi.tap hl ht⟩
  tape := fun ⟨h, hh, hi⟩ hr => ⟨h, hh, hi.tape hr⟩

/-- A store goes in step with a store of its own, its shadow, at the footprint of every target. -/
structure Shadowed (base : Store) (U : Set Nat) (targets : List Nat) (R : Nat → Nat → Nat → Prop) (s : Store)
    (shadow : Nat → Store) : Prop where
  inStep : ∀ h ∈ targets, InStep base (base.footprints targets) U (base.footprint h) (R h) s (shadow h)
  /-- What is new at one footprint is not at another. -/
  apart : ∀ h ∈ targets, ∀ k ∈ targets, h ≠ k → ∀ i j l, R h i j → R k i l → i < base.marks

theorem Shadowed.congr {base : Store} {U : Set Nat} {targets : List Nat} {R : Nat → Nat → Nat → Prop} {s : Store}
    {shadow shadow' : Nat → Store} (hs : Shadowed base U targets R s shadow) (h : ∀ k ∈ targets, shadow k = shadow' k) :
    Shadowed base U targets R s shadow' :=
  ⟨fun k hk => h k hk ▸ hs.inStep k hk, hs.apart⟩

section
variable {base : Store} {U : Set Nat} {targets : List Nat}
  (hG : Ground base (base.footprints targets) U)
  (hd : targets.Pairwise fun h k => Disjoint (base.footprint h) (base.footprint k))
include hG hd

omit hG in
theorem not_mem_footprint {h k : Nat} (hh : h ∈ targets) (hk : k ∈ targets) (hhk : h ≠ k) {p : Place}
    (hp : p ∈ base.footprint h) : p ∉ base.footprint k := by
  have : Std.Symm fun h k => Disjoint (base.footprint h) (base.footprint k) := ⟨fun _ _ h => h.symm⟩
  exact Set.disjoint_left.mp (hd.forall hh hk hhk) hp

omit hG hd in
/-- What is new at the footprint of one target is not at another's after a call on one of them. -/
theorem Shadowed.apart_update {R : Nat → Nat → Nat → Prop} {s : Store} {shadow : Nat → Store}
    (hs : Shadowed base U targets R s shadow) {h : Nat} (hh : h ∈ targets) {R' : Nat → Nat → Prop}
    (hnew : ∀ i j, R' i j → R h i j ∨ s.marks ≤ i) :
    ∀ a ∈ targets, ∀ b ∈ targets, a ≠ b → ∀ i j l,
      Function.update R h R' a i j → Function.update R h R' b i l → i < base.marks := by
  have hlt (k : Nat) (hk : k ∈ targets) (hkh : h ≠ k) (i j l : Nat) (hij : R' i j) (hil : R k i l) : i < base.marks := by
    rcases hnew i j hij with hij | hle
    · exact hs.apart h hh k hk hkh i j l hij hil
    · exact absurd ((hs.inStep k hk).fresh i l hil).1 (Nat.not_lt.mpr hle)
  intro a ha b hb hab i j l hij hil
  by_cases hah : a = h
  · subst hah
    rw [Function.update_self] at hij
    rw [Function.update_of_ne hab.symm] at hil
    exact hlt b hb hab i j l hij hil
  rw [Function.update_of_ne hah] at hij
  by_cases hbh : b = h
  · subst hbh
    rw [Function.update_self] at hil
    exact hlt a ha hab.symm i l j hil hij
  · rw [Function.update_of_ne hbh] at hil
    exact hs.apart a ha b hb hab i j l hij hil

/-- A call goes on in step with the same call on its shadow, and leaves all other shadows in step. -/
theorem Shadowed.feed {R : Nat → Nat → Nat → Prop} {s : Store} {shadow : Nat → Store}
    (hs : Shadowed base U targets R s shadow) {h : Nat} (hh : h ∈ targets) {v : Value} (hv : v.Known base.marks U) :
    (s.feed (.handle h) v).fault = ((shadow h).feed (.handle h) v).fault ∧
      ∃ R', Shadowed base U targets R' (s.feed (.handle h) v).store
        (Function.update shadow h ((shadow h).feed (.handle h) v).store) := by
  have hi := hs.inStep h hh
  have henter : Enters (base.footprint h) (.handle h) := by
    rintro k ⟨⟩
    exact .self
  obtain ⟨hfault, Rh, hg, hi'⟩ := feed_inStep (footprint_subset hh) (base.closed_footprint h) hG hi
    (hv.mono hi.pairing.sub_old subset_rfl) henter
  have hw := within_feed (v := v) (hi.left.tallyless hG.tallyless) ((base.closed_footprint h).within hi.left) henter
  refine ⟨hfault, Function.update R h Rh, fun k hk => ?_, hs.apart_update hh hg.new⟩
  by_cases hkh : k = h
  · subst hkh
    simpa using hi'
  · rw [Function.update_of_ne hkh, Function.update_of_ne hkh]
    exact (hs.inStep k hk).frame hw hi'.left fun p => not_mem_footprint hd hk hh hkh

/-- However calls are interleaved, they come back if and only if the calls on each target come back
when they are made alone, and every footprint goes in step with what these make of it. -/
theorem Shadowed.play {cs : List (Nat × Value)} (hcs : ∀ c ∈ cs, c.1 ∈ targets ∧ c.2.Known base.marks U)
    {R : Nat → Nat → Nat → Prop} {s : Store} {shadow : Nat → Store} (hs : Shadowed base U targets R s shadow) :
    ((Store.play cs s).fault = none ↔
      ∀ h ∈ targets, (Store.play (cs.filter fun c => c.1 = h) (shadow h)).fault = none) ∧
    ((Store.play cs s).fault = none → ∃ R', Shadowed base U targets R' (Store.play cs s).store
      fun h => (Store.play (cs.filter fun c => c.1 = h) (shadow h)).store) := by
  induction cs generalizing R s shadow with
  | nil => exact ⟨⟨fun _ _ _ => rfl, fun _ => rfl⟩, fun _ => ⟨R, hs⟩⟩
  | cons c cs ih =>
    obtain ⟨h, v⟩ := c
    rw [List.forall_mem_cons] at hcs
    obtain ⟨⟨hh, hv⟩, hcs⟩ := hcs
    obtain ⟨hfault, R', hs'⟩ := hs.feed hG hd hh hv
    cases hf : (s.feed (.handle h) v).fault with
    | some f =>
      have hleft := play_cons_of_fault cs hf
      have hright := play_cons_of_fault (cs.filter fun c => c.1 = h) (hfault.symm.trans hf)
      rw [hleft]
      refine ⟨iff_of_false (Option.some_ne_none f) fun hall => ?_, fun h => absurd h (Option.some_ne_none f)⟩
      have hnone := hall h hh
      rw [List.filter_cons_of_pos (by simp), hright] at hnone
      cases hnone
    | none =>
      -- the first call is one of its own target's, and none of any other's
      have hfirst : ∀ k, Store.play (((h, v) :: cs).filter fun c => c.1 = k) (shadow k) =
          Store.play (cs.filter fun c => c.1 = k) (Function.update shadow h ((shadow h).feed (.handle h) v).store k) := by
        intro k
        by_cases hk : h = k
        · subst hk
          rw [List.filter_cons_of_pos (by simp), Function.update_self]
          exact play_cons_of_none _ (hfault.symm.trans hf)
        · rw [List.filter_cons_of_neg (by simpa using hk), Function.update_of_ne (Ne.symm hk)]
      simp only [hfirst, play_cons_of_none cs hf]
      exact ih hcs hs'

end

/-! ## The same heap -/

/-- Two stores hold the same, but for the marks from `m` on, which are paired. -/
def SameHeap (m : Nat) (s t : Store) : Prop :=
  ∃ R, Pairing m R ∧ s.changes = t.changes ∧
    (∀ h, s.object? h = t.object? h ∨ Option.Rel (Object.Like R Set.univ) (s.object? h) (t.object? h)) ∧
    ∀ k, s.tape k = t.tape k ∨ Value.LikeAll R Set.univ (s.tape k) (t.tape k)

theorem relate_objects {R S T : Nat → Nat → Prop} (hT : ∀ i j, (∃ k, R i k ∧ S j k) → T i j) {U V : Set Nat} (hUV : U ⊆ V)
    {x y z : Option Object} (h : Option.Rel (Object.Like R U) x z) (h' : Option.Rel (Object.Like S U) y z) :
    Option.Rel (Object.Like T V) x y := by
  cases h with
  | none => cases h'; exact .none
  | some h => cases h' with | some h' => exact .some ((h.meet h').mono hT hUV)

section
variable {base : Store} {U : Set Nat} {targets : List Nat} {R R' : Nat → Nat → Nat → Prop} {s t : Store}
  {shadow : Nat → Store}

def throughShadows (m : Nat) (targets : List Nat) (R R' : Nat → Nat → Nat → Prop) (i j : Nat) : Prop :=
  old m i j ∨ ∃ h ∈ targets, ∃ k, R h i k ∧ R' h j k

theorem pairing_throughShadows (hm : 0 < base.marks) (hs : Shadowed base U targets R s shadow)
    (ht : Shadowed base U targets R' t shadow) : Pairing base.marks (throughShadows base.marks targets R R') where
  pos := hm
  old k hk := .inl ⟨rfl, hk⟩
  unique := by
    have hR {h : Nat} (hh : h ∈ targets) := (hs.inStep h hh).pairing
    have hR' {h : Nat} (hh : h ∈ targets) := (ht.inStep h hh).pairing
    have hold {h : Nat} (hh : h ∈ targets) {i j k : Nat} (hik : R h i k) (hjk : R' h j k) :=
      (hR hh).eq_through (hR' hh) hik hjk
    rintro i j k l (⟨rfl, hi⟩ | ⟨h, hh, n, hin, hkn⟩) (⟨rfl, hj⟩ | ⟨h', hh', n', hjn, hln⟩)
    · exact Iff.rfl
    · constructor
      · rintro rfl
        exact hold hh' hjn hln (.inl hi)
      · rintro rfl
        exact (hold hh' hjn hln (.inr hi)).symm
    · constructor
      · rintro rfl
        exact (hold hh hin hkn (.inl hj)).symm
      · rintro rfl
        exact hold hh hin hkn (.inr hj)
    · by_cases hhh : h = h'
      · subst hhh
        exact ((hR hh).unique hin hjn).trans ((hR' hh).unique hkn hln).symm
      constructor
      · rintro rfl
        have hi := hs.apart h hh h' hh' hhh i n n' hin hjn
        exact (hold hh hin hkn (.inl hi)).symm.trans (hold hh' hjn hln (.inl hi))
      · rintro rfl
        have hk := ht.apart h hh h' hh' hhh k n n' hkn hln
        exact (hold hh hin hkn (.inr hk)).trans (hold hh' hjn hln (.inr hk)).symm

/-- Two stores with the same shadows hold the same. -/
theorem sameHeap_of_shadowed (hm : 0 < base.marks) (hs : Shadowed base U targets R s shadow)
    (ht : Shadowed base U targets R' t shadow) (hws : Within (base.footprints targets) base s)
    (hwt : Within (base.footprints targets) base t) : SameHeap base.marks s t := by
  refine ⟨_, pairing_throughShadows hm hs ht, hws.changes.trans hwt.changes.symm, fun x => ?_, fun x => ?_⟩
  · by_cases hx : .object x ∈ base.footprints targets
    · obtain ⟨h, hh, hx⟩ := hx
      exact .inr (relate_objects (fun i j hij => .inr ⟨h, hh, hij⟩) (Set.subset_univ U) ((hs.inStep h hh).object x hx)
        ((ht.inStep h hh).object x hx))
    · exact .inl ((hws.object x hx).trans (hwt.object x hx).symm)
  · by_cases hx : .tape x ∈ base.footprints targets
    · obtain ⟨h, hh, hx⟩ := hx
      exact .inr ((((hs.inStep h hh).tape x hx).meet ((ht.inStep h hh).tape x hx)).mono
        (fun i j hij => .inr ⟨h, hh, hij⟩) (Set.subset_univ U))
    · exact .inl ((hws.tape x hx).trans (hwt.tape x hx).symm)

end

end Store

end StreamStat
