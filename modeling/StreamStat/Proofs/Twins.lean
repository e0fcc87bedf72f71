import StreamStat.Proofs.Interleaving
import StreamStat.Proofs.Sides

/-!
# Accounts that share nothing

Two accounts that are no views have no view in common, and write on no tape. So calls on them and on their
views can be interleaved in any way: what becomes of the one is what becomes of it without the calls on
the other one (`Twins.alike`), unless a value or a converter shows how the other one stands.
-/

namespace StreamStat

def Converter.IsPure (m : Nat) (U : Set Nat) (c : Converter) : Prop := c.taps = ∅ ∧ c.IsFunctional m U

def Converter.IsUntapped (c : Converter) : Prop := c.taps = ∅

namespace Store

/-! ## Calls on two sides -/

/-- Calls on two sides, and views that are made of them, in any order; and what is left of these moves
without the calls on the second side, and without those on the first. -/
inductive Interleaves (P : Converter → Prop) (Q : Value → Prop) (h k : Nat) :
    Store → List Move → List Move → List Move → Prop where
  | nil (s : Store) : Interleaves P Q h k s [] [] []
  | adapt {s : Store} {x : Nat} {c : Converter} {ms as cs : List Move} (hx : x ∈ s.side P h ∪ s.side P k) (hc : P c)
      (hms : Interleaves P Q h k (s.adapt (.handle x) c) ms as cs) :
      Interleaves P Q h k s (.adapt (.handle x) c :: ms) (.adapt (.handle x) c :: as) (.adapt (.handle x) c :: cs)
  | left {s : Store} {x : Nat} {v : Value} {ms as cs : List Move} (hx : x ∈ s.side P h) (hv : Q v)
      (hms : Interleaves P Q h k (s.feed (.handle x) v).store ms as cs) :
      Interleaves P Q h k s (.feed (.handle x) v :: ms) (.feed (.handle x) v :: as) cs
  | right {s : Store} {x : Nat} {v : Value} {ms as cs : List Move} (hx : x ∈ s.side P k) (hv : Q v)
      (hms : Interleaves P Q h k (s.feed (.handle x) v).store ms as cs) :
      Interleaves P Q h k s (.feed (.handle x) v :: ms) as (.feed (.handle x) v :: cs)

theorem Interleaves.symm {P : Converter → Prop} {Q : Value → Prop} {h k : Nat} {s : Store} {ms as cs : List Move}
    (hms : Interleaves P Q h k s ms as cs) : Interleaves P Q k h s ms cs as := by
  induction hms with
  | nil s => exact .nil s
  | adapt hx hc _ ih => exact .adapt hx.symm hc ih
  | left hx hv _ ih => exact .right hx hv ih
  | right hx hv _ ih => exact .left hx hv ih

theorem after_feed (s : Store) (target v : Value) (ms : List Move) :
    s.after (.feed target v :: ms) = (s.feed target v).store.after ms :=
  congrArg (fun o : Outcome => o.store.after ms) (traced_outcome s false target v)

/-! ## Accounts that share nothing -/

def Alike (m : Nat) (U X : Set Nat) (s t : Store) : Prop :=
  ∃ R, Pairing m R ∧ ∀ x ∈ X, ∃ a b, s.account? x = some a ∧ t.account? x = some b ∧ a.Like R U b

/-- Two accounts that are neither views nor recorders, and objects that look the same whatever becomes of them
and their views. -/
structure Twins (m : Nat) (U : Set Nat) (h k : Nat) (s : Store) : Prop where
  sound : s.Sound
  marks : s.marks = m
  ne : h ≠ k
  isOld : h < s.next ∧ k < s.next
  link : s.link? h = none ∧ s.link? k = none
  recorder : s.recorder? h = none ∧ s.recorder? k = none
  steady : s.Steady U (s.side (Converter.IsPure m U) h ∪ s.side (Converter.IsPure m U) k)

namespace Twins

variable {m : Nat} {U : Set Nat} {h k : Nat} {b : Store}

theorem symm (ht : Twins m U h k b) : Twins m U k h b :=
  { ht with
    ne := ht.ne.symm
    isOld := ht.isOld.symm
    link := ht.link.symm
    recorder := ht.recorder.symm
    steady := Set.union_comm .. ▸ ht.steady }

variable (ht : Twins m U h k b)
include ht

theorem closed : b.Closed (Place.object '' b.side (Converter.IsPure m U) h) :=
  closed_side_of_base (fun _ => And.left) ht.link.1 ht.recorder.1

theorem apart {x : Nat} (hx : x ∈ b.side (Converter.IsPure m U) h) : x ∉ b.side (Converter.IsPure m U) k :=
  OnSide.apart (fun hk => ht.ne (onSide_of_base ht.link.1 hk)) (fun hh => ht.ne (onSide_of_base ht.link.2 hh).symm) hx

theorem functional {x : Nat} {adoptee : Value} {c : Converter} (hx : x ∈ b.side (Converter.IsPure m U) h)
    (hl : b.link? x = some (adoptee, c)) : c.IsFunctional m U := by
  cases hx with
  | self => rw [ht.link.1] at hl; cases hl
  | view hx hc _ =>
    rw [hl] at hx
    cases hx
    exact hc.2

theorem ground :
    Ground b (Place.object '' (b.side (Converter.IsPure m U) h ∪ b.side (Converter.IsPure m U) k)) U where
  tallyless := ht.sound.tallyless
  functional := by
    intro x adoptee c hx hl
    rw [ht.marks]
    rcases mem_objects.mp hx with hx | hx
    · exact ht.functional hx hl
    · exact ht.symm.functional hx hl
  steady t hw := ht.steady t fun x _ hx => hw.object x fun h => hx (mem_objects.mp h)

theorem adapt {x : Nat} (hx : x ∈ b.side (Converter.IsPure m U) h ∪ b.side (Converter.IsPure m U) k) {c : Converter}
    (hc : c.IsPure m U) : Twins m U h k (b.adapt (.handle x) c) := by
  have hlt : x < b.next := hx.elim (OnSide.lt_next ht.isOld.1) (OnSide.lt_next ht.isOld.2)
  exact
    { sound := sound_adapt ht.sound hlt hc.1
      marks := ht.marks
      ne := ht.ne
      isOld := by
        rw [next_adapt]
        exact ⟨Nat.lt_succ_of_lt ht.isOld.1, Nat.lt_succ_of_lt ht.isOld.2⟩
      link := by
        rw [link?_adapt_of_lt _ _ ht.isOld.1, link?_adapt_of_lt _ _ ht.isOld.2]
        exact ht.link
      recorder := by
        rw [recorder?_adapt, recorder?_adapt]
        exact ht.recorder
      steady := ht.steady.adapt (fun y hy hy' =>
        hy'.imp (fun h => (onSide_adapt _ _ ht.sound.layered h).resolve_left (Nat.ne_of_lt hy))
          fun h => (onSide_adapt _ _ ht.sound.layered h).resolve_left (Nat.ne_of_lt hy)) _ _ }

/-- Whatever happens on the two sides, the first one goes in step with what becomes of it without the calls
on the second. -/
theorem inStep {R : Nat → Nat → Prop} {s s' : Store} {ms as cs : List Move}
    (hms : Interleaves (Converter.IsPure m U) (Value.Known m U) h k s ms as cs)
    (hi : InStep b (Place.object '' (b.side (Converter.IsPure m U) h ∪ b.side (Converter.IsPure m U) k)) U
      (Place.object '' b.side (Converter.IsPure m U) h) R s s') :
    ∃ b' R', Twins m U h k b' ∧
      InStep b' (Place.object '' (b'.side (Converter.IsPure m U) h ∪ b'.side (Converter.IsPure m U) k)) U
        (Place.object '' b'.side (Converter.IsPure m U) h) R' (s.after ms) (s'.after as) := by
  -- `b` is the common start with the views that have been listed since; a call on the first side goes in step,
  -- and one on the second is outside of what is compared
  induction hms generalizing b R s' with
  | nil s => exact ⟨b, R, ht, hi⟩
  | @adapt s x c ms as cs hx hc _ ih =>
    rw [side_congr hi.left.link, side_congr hi.left.link] at hx
    refine ih (ht.adapt hx hc) (hi.adapt (.handle x) c ?_ ?_ ?_)
    · exact Set.image_mono (Set.union_subset_union (fun y => OnSide.adapt _ _) fun y => OnSide.adapt _ _)
    · intro y hy
      exact (onSide_adapt _ _ ht.sound.layered (mem_objects.mp hy)).imp_right mem_objects.mpr
    · exact fun k hk => absurd hk tape_notMem_objects
  | @left s x v ms as cs hx hv _ ih =>
    rw [side_congr hi.left.link] at hx
    have henter : Enters (Place.object '' b.side (Converter.IsPure m U) h) (.handle x) := by
      rintro y ⟨⟩
      exact mem_objects.mpr hx
    have hv' : v.Like R U v := hv.mono (ht.marks ▸ hi.pairing).sub_old subset_rfl
    obtain ⟨_, R', _, hi'⟩ := feed_inStep (Set.image_mono Set.subset_union_left) ht.closed ht.ground hi hv' henter
    rw [after_feed, after_feed]
    exact ih ht hi'
  | @right s x v ms as cs hx hv _ ih =>
    rw [side_congr hi.left.link] at hx
    have henter : Enters (Place.object '' b.side (Converter.IsPure m U) k) (.handle x) := by
      rintro y ⟨⟩
      exact mem_objects.mpr hx
    have hw := within_feed (v := v) (hi.left.tallyless ht.sound.tallyless) (ht.symm.closed.within hi.left) henter
    have hleft := hi.left.trans (hw.mono (Set.image_mono Set.subset_union_right))
    rw [after_feed]
    refine ih ht (hi.frame hw hleft ?_)
    rintro p ⟨y, hy, rfl⟩ hp
    exact ht.apart hy (mem_objects.mp hp)

theorem alike (hm : 0 < m) {a : Account} (ha : b.account? h = some a)
    (hknown : ∀ x ∈ b.side (Converter.IsPure m U) h, ∀ a, b.account? x = some a → a.Known m U)
    {ms as cs : List Move} (hms : Interleaves (Converter.IsPure m U) (Value.Known m U) h k b ms as cs) :
    Alike m U ((b.after ms).side (Converter.IsPure m U) h) (b.after ms) (b.after as) := by
  have hstart := inStep_self (H := Place.object '' (b.side (Converter.IsPure m U) h ∪ b.side (Converter.IsPure m U) k))
    (F := Place.object '' b.side (Converter.IsPure m U) h) (U := U) (ht.marks ▸ hm)
    (fun x a hx hx' => ht.marks ▸ hknown x (mem_objects.mp hx) a hx') fun k hk => absurd hk tape_notMem_objects
  obtain ⟨b', R, ht', hi⟩ := ht.inStep hms hstart
  refine ⟨R, ht'.marks ▸ hi.pairing, fun x hx => ?_⟩
  have hx' : x ∈ b'.side (Converter.IsPure m U) h := side_congr hi.left.link ▸ hx
  have hacc : ∃ d, (b.after ms).account? x = some d := by
    cases hx with
    | self =>
      exact ⟨_, account?_eq_some.mpr (object?_after ht.sound.tallyless ms (account?_eq_some.mp ha))⟩
    | view hl _ _ =>
      obtain ⟨d, hd, _⟩ := link?_eq_some.mp hl
      exact ⟨d, hd⟩
  obtain ⟨d, hd⟩ := hacc
  obtain ⟨e, he, hlike⟩ := hi.account (mem_objects.mpr hx') hd
  exact ⟨d, e, hd, he, hlike⟩

end Twins

end Store

end StreamStat
