import StreamStat.Account.Basic
import StreamStat.Proofs.Likeness

/-!
# Accounts that are alike

Conversions make of values that are alike values that are alike, and so do converters that are
functions of their argument. Accounts that are alike take them alike (`receive_like`).
-/

namespace StreamStat

section
variable {m : Nat} {R S : Nat → Nat → Prop} {U V : Set Nat} {o o' : ObjectView}

/-! ## Converters -/

section
variable {v w : Value}

theorem Accord.map_eq {α : Type} {f : α → Value} (hf : ∀ a, (f a).Like R U (f a)) {x y : Except Fault α} (h : x = y) :
    Accord (Value.Like R U) (x.map f) (y.map f) :=
  (Accord.of_eq (r := Eq) (fun _ => rfl) h).map fun a _ hab => hab ▸ hf a

theorem Value.like_ofGrid (hR : Pairing m R) (g : Grid) : (ofGrid g).Like R U (ofGrid g) := by
  unfold ofGrid
  split
  · exact like_ofNumber hR _
  · exact .array g hR.zero

theorem Value.toFloat_like (hR : Pairing m R) (h : v.Like R U w) : Accord (Value.Like R U) v.toFloat w.toFloat := by
  have hmap := Accord.map_eq (f := fun x => ofNumber (.float x)) (fun x => like_ofNumber (U := U) hR _) (toDouble_like h)
  cases h with
  | number n h =>
    cases n with
    | float x => exact .ok (.number _ h)
    | _ => exact hmap
  | _ => exact hmap

theorem Value.truncated_like (hR : Pairing m R) (h : v.Like R U w) :
    Accord (Value.Like R U) v.truncated w.truncated := by
  have hmap (x : Except Fault Int) : Accord (Value.Like R U) (x.map ofInt) (x.map ofInt) :=
    Accord.map_eq (fun i => like_ofNumber hR _) rfl
  cases h with
  | number n h =>
    cases n with
    | int i => exact .ok (.number _ h)
    | _ => simp only [truncated]; exact hmap _
  | text s h => exact hmap _
  | array g h =>
    obtain ⟨t, shape, cells⟩ := g
    rcases shape with _ | ⟨k, shape⟩
    · rcases cells with _ | ⟨n, _ | ⟨n', cells⟩⟩ <;> first | exact hmap _ | exact .error _
    · exact .error _
  | _ => exact .error _

theorem Value.length_like (h : v.Like R U w) : v.length = w.length := by
  cases h with
  | list h h' => exact congrArg Except.ok (likeAll_iff.mp h).length_eq
  | array g h =>
    obtain ⟨t, shape, cells⟩ := g
    cases shape <;> rfl
  | _ => rfl

theorem Value.abs_like (hR : Pairing m R) (h : v.Like R U w) : Accord (Value.Like R U) v.abs w.abs := by
  have hmap (x : Except Fault Number) : Accord (Value.Like R U) (x.map ofNumber) (x.map ofNumber) :=
    Accord.map_eq (like_ofNumber hR) rfl
  cases h with
  | number n h =>
    cases n with
    | int i =>
      simp only [abs]
      split
      · exact .ok (.number _ h)
      · exact .ok (like_ofNumber hR _)
    | _ => simp only [abs]; exact hmap _
  | array g h => exact Accord.map_eq (like_ofGrid hR) rfl
  | _ => exact .error _

theorem Value.neg_like (hR : Pairing m R) (h : v.Like R U w) : Accord (Value.Like R U) v.neg w.neg := by
  cases h with
  | number n h => exact Accord.map_eq (like_ofNumber hR) rfl
  | array g h => exact Accord.map_eq (like_ofGrid hR) rfl
  | _ => exact .error _

theorem Value.toFraction_like (hR : Pairing m R) (h : v.Like R U w) :
    Accord (Value.Like R U) v.toFraction w.toFraction := by
  cases h with
  | number n h => exact Accord.map_eq (like_ofNumber hR) rfl
  | text s h => exact Accord.map_eq (fun r => like_ofNumber hR _) rfl
  | _ => exact .error _

theorem Value.toText_like (hR : Pairing m R) (ho : o.Agree U o') (h : v.Like R U w) :
    Accord (Value.Like R U) (v.toText o) (w.toText o') := by
  have hmap := Accord.map_eq (f := ofText) (fun s => .text (R := R) (U := U) s hR.zero) (plainText_like ho h)
  cases h with
  | text s h => exact .ok (.text s h)
  | _ => exact hmap

theorem Conversion.apply_like (c : Conversion) (hR : Pairing m R) (ho : o.Agree U o') (h : v.Like R U w) :
    Accord (Value.Like R U) (c.apply o v) (c.apply o' w) := by
  cases c with
  | float => exact Value.toFloat_like hR h
  | int => exact Value.truncated_like hR h
  | str => exact Value.toText_like hR ho h
  | len =>
    simp only [apply, Value.length_like h]
    exact Accord.map_eq (fun n => Value.like_ofNumber hR _) rfl
  | abs => exact Value.abs_like hR h
  | fraction => exact Value.toFraction_like hR h
  | double => exact Accord.map_eq (fun x => Value.like_ofNumber hR _) (Value.toDouble_like h)
  | neg => exact Value.neg_like hR h
  | id => exact .ok h
  | none => exact .ok .none
  | fail => exact .error _

end

/-- Two programs do the same up to a pairing of marks, whatever the objects that are not in `U` look
like. What they feed may add to the pairing. -/
inductive Program.Like (m : Nat) (U : Set Nat) : (Nat → Nat → Prop) → Program → Program → Prop
  | finish {R : Nat → Nat → Prop} {x y : Except Fault Value} :
      Accord (Value.Like R U) x y → Like m U R (.finish x) (.finish y)
  | look {R : Nat → Nat → Prop} {next next' : ObjectView → Program} :
      (∀ o o', o.Agree U o' → Like m U R (next o) (next' o')) → Like m U R (.look next) (.look next')
  | feed {R : Nat → Nat → Prop} {target v w : Value} {next next' : Value → Option Fault → Program} :
      v.Like R U w →
      (∀ S v w fault, Pairing m S → (∀ i j, R i j → S i j) → v.Like S U w → Like m U S (next v fault) (next' w fault)) →
        Like m U R (.feed target v next) (.feed target w next')

theorem Program.Like.mono {n : Nat} (hm : 0 < m) (hmn : m ≤ n) {p q : Program} (h : p.Like m U R q) : p.Like n U R q := by
  induction h with
  | finish h => exact .finish h
  | look _ ih => exact .look ih
  | feed hv _ ih =>
    refine .feed hv fun S v w fault hS => ih S v w fault ?_
    exact ⟨hm, hS.unique, fun k hk => hS.old k (Nat.lt_of_lt_of_le hk hmn)⟩

namespace Converter

def IsFunctional (c : Converter) (m : Nat) (U : Set Nat) : Prop :=
  ∀ (R : Nat → Nat → Prop) (v w : Value), Pairing m R → v.Like R U w → (c.program v).Like m U R (c.program w)

theorem IsFunctional.mono {c : Converter} {m n : Nat} {U : Set Nat} (h : c.IsFunctional m U) (hm : 0 < m) (hmn : m ≤ n) :
    c.IsFunctional n U := fun R v w hR hvw =>
  (h R v w ⟨hm, hR.unique, fun k hk => hR.old k (Nat.lt_of_lt_of_le hk hmn)⟩ hvw).mono hm hmn

theorem isFunctional_ofConversion (object : Value) (c : Conversion) (m : Nat) (U : Set Nat) :
    (ofConversion object c).IsFunctional m U :=
  fun _ _ _ hR h => .look fun _ _ ho => .finish (c.apply_like hR ho h)

theorem isFunctional_tee (object target : Value) (m : Nat) (U : Set Nat) : (tee object target).IsFunctional m U := by
  refine fun R v w _ h => .feed h fun S v w fault _ _ h => .finish ?_
  cases fault with
  | none => exact .ok h
  | some f => exact .error f

end Converter

/-! ## Accounts -/

section
variable {v v' w w' : Value}

theorem keepLess_like (hR : Pairing m R) (ho : o.Agree U o') (hw : w.Like R U w') (hv : v.Like R U v') :
    Accord (Value.Like R U) (keepLess o w v) (keepLess o' w' v') := by
  unfold keepLess
  rw [Value.isNone_like hw, Value.lt_like hR ho hv hw]
  split
  · exact .ok hv
  · cases v'.lt o' w' with
    | error f => exact .error f
    | ok less => cases less <;> first | exact .ok hv | exact .ok hw

theorem keepGreater_like (hR : Pairing m R) (ho : o.Agree U o') (hw : w.Like R U w') (hv : v.Like R U v') :
    Accord (Value.Like R U) (keepGreater o w v) (keepGreater o' w' v') := by
  unfold keepGreater
  rw [Value.isNone_like hw, Value.lt_like hR ho hw hv]
  split
  · exact .ok hv
  · cases w'.lt o' v' with
    | error f => exact .error f
    | ok less => cases less <;> first | exact .ok hv | exact .ok hw

end

inductive Body.Like (R : Nat → Nat → Prop) (U : Set Nat) : Body → Body → Prop
  | counter : Like R U .counter .counter
  | recorder (tape : Nat) : Like R U (.recorder tape) (.recorder tape)
  | min {v w : Value} : v.Like R U w → Like R U (.min v) (.min w)
  | max {v w : Value} : v.Like R U w → Like R U (.max v) (.max w)
  | minMax {v v' w w' : Value} : v.Like R U v' → w.Like R U w' → Like R U (.minMax v w) (.minMax v' w')
  | mean (x : Double) : Like R U (.mean x) (.mean x)
  | variance (ms : Moments Double) : Like R U (.variance ms) (.variance ms)
  | view (adoptee : Value) (c : Converter) : Like R U (.view adoptee c) (.view adoptee c)

theorem Body.Like.mono (hRS : ∀ i j, R i j → S i j) (hUV : U ⊆ V) {b c : Body} : b.Like R U c → b.Like S V c
  | .counter => .counter
  | .recorder tape => .recorder tape
  | .min h => .min (h.mono hRS hUV)
  | .max h => .max (h.mono hRS hUV)
  | .minMax h h' => .minMax (h.mono hRS hUV) (h'.mono hRS hUV)
  | .mean x => .mean x
  | .variance ms => .variance ms
  | .view adoptee c => .view adoptee c

theorem Body.Like.meet : ∀ {b c d : Body}, b.Like R U d → c.Like S U d → b.Like (fun i j => ∃ k, R i k ∧ S j k) U c
  | _, _, _, .counter, h => by cases h; exact .counter
  | _, _, _, .recorder tape, h => by cases h; exact .recorder tape
  | _, _, _, .min h, h' => by cases h' with | min h' => exact .min (h.meet h')
  | _, _, _, .max h, h' => by cases h' with | max h' => exact .max (h.meet h')
  | _, _, _, .minMax h k, h' => by cases h' with | minMax h' k' => exact .minMax (h.meet h') (k.meet k')
  | _, _, _, .mean x, h => by cases h; exact .mean x
  | _, _, _, .variance ms, h => by cases h; exact .variance ms
  | _, _, _, .view adoptee c, h => by cases h; exact .view adoptee c

namespace Account

structure Like (R : Nat → Nat → Prop) (U : Set Nat) (a b : Account) : Prop where
  title : a.title = b.title
  samples : a.samples = b.samples
  body : a.body.Like R U b.body
  stamp : R a.stamp b.stamp
  notes : a.notes = b.notes

theorem Like.mono (hRS : ∀ i j, R i j → S i j) (hUV : U ⊆ V) {a b : Account} (h : a.Like R U b) : a.Like S V b :=
  ⟨h.title, h.samples, h.body.mono hRS hUV, hRS _ _ h.stamp, h.notes⟩

theorem Like.meet {a b c : Account} (h : a.Like R U c) (h' : b.Like S U c) :
    a.Like (fun i j => ∃ k, R i k ∧ S j k) U b :=
  ⟨h.title.trans h'.title.symm, h.samples.trans h'.samples.symm, h.body.meet h'.body, ⟨_, h.stamp, h'.stamp⟩,
    h.notes.trans h'.notes.symm⟩

theorem count_like {a b : Account} (h : a.Like R U b) : a.count.Like R U b.count :=
  ⟨h.title, congrArg (· + 1) h.samples, h.body, h.stamp, h.notes⟩

/-- Accounts that are alike and take samples that are alike stay alike, or refuse them alike. -/
theorem receive_like (hR : Pairing m R) (ho : o.Agree U o') {a b : Account} (h : a.Like R U b) {i j : Nat} (hij : R i j)
    {v w : Value} (hv : v.Like R U w) :
    (a.receive o i v).1.Like R U (b.receive o' j w).1 ∧ (a.receive o i v).2 = (b.receive o' j w).2 := by
  obtain ⟨title, n, body, stamp, notes⟩ := a
  obtain ⟨title', n', body', stamp', notes'⟩ := b
  obtain ⟨rfl, rfl, hb, hs, rfl⟩ := h
  simp only at hb hs
  -- an account without extremes is what it was but for its count, and its mean if it has one
  have whole {x y : Body} (hb : x.Like R U y) (n : Nat) {k l : Nat} (hkl : R k l) :
      Like R U ⟨title, n, x, k, notes⟩ ⟨title, n, y, l, notes⟩ := ⟨rfl, rfl, hb, hkl, rfl⟩
  cases hb with
  | counter => exact ⟨whole .counter _ hs, rfl⟩
  | recorder tape => exact ⟨whole (.recorder tape) _ hs, rfl⟩
  | view adoptee c => exact ⟨whole (.view adoptee c) _ hs, rfl⟩
  | min hx =>
    have hk := keepLess_like hR ho hx hv
    simp only [receive]
    generalize keepLess o _ v = x, keepLess o' _ w = y at hk ⊢
    cases hk with
    | error f => exact ⟨whole (.min hx) _ hs, rfl⟩
    | ok hl => exact ⟨whole (.min hl) _ hs, rfl⟩
  | max hx =>
    have hk := keepGreater_like hR ho hx hv
    simp only [receive]
    generalize keepGreater o _ v = x, keepGreater o' _ w = y at hk ⊢
    cases hk with
    | error f => exact ⟨whole (.max hx) _ hs, rfl⟩
    | ok hl => exact ⟨whole (.max hl) _ hs, rfl⟩
  | minMax hx hy =>
    have hk := keepLess_like hR ho hx hv
    have hk' := keepGreater_like hR ho hy hv
    simp only [receive]
    generalize keepLess o _ v = x, keepLess o' _ w = x' at hk ⊢
    generalize keepGreater o _ v = y, keepGreater o' _ w = y' at hk' ⊢
    cases hk with
    | error f => exact ⟨whole (.minMax hx hy) _ hs, rfl⟩
    | ok hl =>
      cases hk' with
      | error f => exact ⟨whole (.minMax hl hy) _ hs, rfl⟩
      | ok hg => exact ⟨whole (.minMax hl hg) _ hs, rfl⟩
  | mean x =>
    simp only [receive, Value.toDouble_like hv]
    cases w.toDouble with
    | error f => exact ⟨whole (.mean x) _ hs, rfl⟩
    | ok y => exact ⟨whole (.mean _) _ hij, rfl⟩
  | variance ms =>
    simp only [receive, Value.toDouble_like hv]
    cases w.toDouble with
    | error f => exact ⟨whole (.variance ms) _ hs, rfl⟩
    | ok y => exact ⟨whole (.variance _) _ hij, rfl⟩

end Account

end

end StreamStat
