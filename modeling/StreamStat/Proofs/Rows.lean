import StreamStat.Proofs.Moves
import StreamStat.Proofs.RegisterCalls

/-!
# What a row of values comes to

Values that are fed to several targets are given one by one to each of them, and the first call that
fails is the last one. No value is given twice and none is passed over: what has not been given when a call
fails is what a stream still holds (`accumulate_in_order`).
-/

namespace StreamStat

namespace Store

/-! ## Single calls -/

def offer (s : Store) (target v : Value) : Outcome := s.feed target (v.amendBy s.changes)

def grid (targets values : List Value) : List (Value × Value) :=
  values.flatMap fun v => targets.map fun t => (t, v)

inductive Calls : Store → List (Value × Value) → Store → Prop where
  | nil (s : Store) : Calls s [] s
  | cons {s u : Store} {t v : Value} {cs : List (Value × Value)} (h : (s.offer t v).fault = none)
      (hs : Calls (s.offer t v).store cs u) : Calls s ((t, v) :: cs) u

/-- Some calls return, and the next one fails: it is the one that gives the `i`-th value to one of the
targets, and the calls before it are those that come before it in the grid. -/
def Breaks (s : Store) (targets values : List Value) (i : Nat) (o : Outcome) (f : Fault) : Prop :=
  ∃ j v t u, values[i]? = some v ∧ targets[j]? = some t ∧
    Calls s (grid targets (values.take i) ++ (targets.take j).map fun t => (t, v)) u ∧
    u.offer t v = o ∧ o.fault = some f

theorem Calls.append {s t u : Store} {cs ds : List (Value × Value)} (h : Calls s cs t) (h' : Calls t ds u) :
    Calls s (cs ++ ds) u := by
  induction h with
  | nil => exact h'
  | cons hc _ ih => exact .cons hc (ih h')

/-! ## Rows of values -/

theorem forEach_offer (v : Value) (targets : List Value) (s : Store) :
    (∃ u, Calls s (targets.map fun t => (t, v)) u ∧ forEach (fun t s => s.offer t v) targets s = ⟨u, none⟩) ∨
      ∃ j t u f, targets[j]? = some t ∧ Calls s ((targets.take j).map fun t => (t, v)) u ∧
        (u.offer t v).fault = some f ∧ forEach (fun t s => s.offer t v) targets s = u.offer t v := by
  induction targets generalizing s with
  | nil => exact .inl ⟨s, .nil s, rfl⟩
  | cons t ts ih =>
    simp only [forEach, Outcome.andThen]
    cases hf : (s.offer t v).fault with
    | some f => exact .inr ⟨0, t, s, f, rfl, .nil s, hf, rfl⟩
    | none =>
      rcases ih (s.offer t v).store with ⟨u, hc, hu⟩ | ⟨j, t', u, f, ht, hc, hu, ho⟩
      · exact .inl ⟨u, .cons hf hc, hu⟩
      · exact .inr ⟨j + 1, t', u, f, ht, .cons hf hc, hu, ho⟩

theorem feedAll_cons (targets : List Value) (v : Value) (vs : List Value) (s : Store) :
    feedAll targets (v :: vs) s =
      match (forEach (fun t s => s.offer t v) targets s).fault with
      | none => feedAll targets vs (forEach (fun t s => s.offer t v) targets s).store
      | some _ => ⟨forEach (fun t s => s.offer t v) targets s, vs⟩ := rfl

theorem feedAll_calls (targets values : List Value) (s : Store) :
    (∃ u, Calls s (grid targets values) u ∧ feedAll targets values s = ⟨⟨u, none⟩, []⟩) ∨
      ∃ i o f, Breaks s targets values i o f ∧ feedAll targets values s = ⟨o, values.drop (i + 1)⟩ := by
  induction values generalizing s with
  | nil => exact .inl ⟨s, .nil s, rfl⟩
  | cons v vs ih =>
    rw [feedAll_cons]
    rcases forEach_offer v targets s with ⟨u, hc, he⟩ | ⟨j, t, u, f, ht, hc, hf, he⟩
    · rw [he]
      rcases ih u with ⟨w, hw, hr⟩ | ⟨i, o, f, ⟨j, v', t, w, hv, ht, hw, ho, hf⟩, hr⟩
      · exact .inl ⟨w, hc.append hw, hr⟩
      · refine .inr ⟨i + 1, o, f, ⟨j, v', t, w, hv, ht, ?_, ho, hf⟩, hr⟩
        rw [List.take_succ_cons, grid, List.flatMap_cons, List.append_assoc]
        exact hc.append hw
    · rw [he, hf]
      exact .inr ⟨0, _, f, ⟨j, v, t, u, rfl, ht, hc, rfl, hf⟩, rfl⟩

theorem feedAll_append (targets vs ws : List Value) {s : Store}
    (h : (feedAll targets vs s).outcome.fault = none) :
    feedAll targets (vs ++ ws) s = feedAll targets ws (feedAll targets vs s).outcome.store := by
  induction vs generalizing s with
  | nil => rfl
  | cons v vs ih =>
    rw [List.cons_append, feedAll_cons]
    rw [feedAll_cons] at h ⊢
    cases hf : (forEach (fun t s => s.offer t v) targets s).fault with
    | none =>
      rw [hf] at h
      exact ih h
    | some f =>
      rw [hf] at h
      exact absurd (hf.symm.trans h) (Option.some_ne_none f)

theorem accumulate_of_ne_nil {targets : List Value} (h : targets ≠ []) (values : List Value) (s : Store) :
    accumulate targets values s = feedAll targets values s := by
  unfold accumulate
  rw [List.isEmpty_eq_false_iff.mpr h]
  rfl

/-! ## Streams -/

theorem stampAll_eq {s t : Store} {vs ws : List Value} (h : s.stampAll vs = (ws, t)) :
    ws.length = vs.length ∧ t = s.reserve vs.length := by
  cases h
  exact ⟨by rw [List.length_map, List.length_zipIdx], rfl⟩

def remaining? (s : Store) (h : Nat) : Option (List Value) :=
  match s.object? h with
  | some (.stream source taken) => some ((source.items?.getD []).drop taken)
  | _ => none

theorem remaining?_eq_some {s : Store} {h : Nat} {values : List Value} :
    s.remaining? h = some values ↔
      ∃ source taken, s.object? h = some (.stream source taken) ∧ (source.items?.getD []).drop taken = values := by
  unfold remaining?
  constructor
  · intro hr
    split at hr
    next source taken hx => exact ⟨source, taken, hx, Option.some.inj hr⟩
    next => cases hr
  · rintro ⟨source, taken, hx, rfl⟩
    rw [hx]

theorem object?_accumulate_stream {s : Store} (hn : s.Tallyless) (targets values : List Value) {h : Nat}
    {source : Value} {taken : Nat} (hx : s.object? h = some (.stream source taken)) :
    (accumulate targets values s).outcome.store.object? h = some (.stream source taken) := by
  rw [← perform_accumulate]
  exact object?_perform hn (.accumulate targets values) hx

end Store

namespace Session

/-! ## Streams of a session -/

def leaving (S : Session) (u : Store) (h : Nat) (x : Object) : Session :=
  { S.keep u with store := (S.keep u).store.put h x }

/-- The stream that an accumulation leaves of another one, of which it has not taken the last `rest` items. -/
def leftover (source : Value) (rest : Nat) (ended : Bool) : Object :=
  if ended then .stream (.list [] 0) 0 else .stream source ((source.items?.getD []).length - rest)

theorem run_store (S : Session) : Action.store.run.run S = (.ok S.store, S) := rfl

theorem run_modify (f : Session → Session) (S : Session) :
    (modify f : Action PUnit).run.run S = (.ok (), f S) := rfl

theorem run_leave {S : Session} {h : Nat} {source : Value} {taken : Nat}
    (hx : S.store.object? h = some (.stream source taken)) (rest : Nat) (ended : Bool) :
    (Action.leave (.handle h) rest ended).run.run S =
      (.ok (), { S with store := S.store.put h (leftover source rest ended) }) := by
  have ho : (Action.object? (.handle h)).run.run S = (.ok (some (.stream source taken)), S) := by
    rw [← hx]
    rfl
  unfold Action.leave
  rw [run_bind, ho]
  rfl

theorem run_itemsOf {S : Session} {h : Nat} {source : Value} {taken : Nat}
    (hx : S.store.object? h = some (.stream source taken)) :
    (Action.itemsOf (.handle h)).run.run S =
      (.ok (S.store.stampAll ((source.items?.getD []).drop taken)).1,
        { S with store := (S.store.stampAll ((source.items?.getD []).drop taken)).2 }) := by
  have ho : (Action.object? (.handle h)).run.run S = (.ok (some (.stream source taken)), S) := by
    rw [← hx]
    rfl
  unfold Action.itemsOf
  rw [run_bind, ho]
  rfl

section
variable {S : Session} {h : Nat} {source : Value} {taken : Nat} {targets items : List Value} {start : Store}

theorem run_accumulate (hx : S.store.object? h = some (.stream source taken)) (hne : targets ≠ [])
    (hi : S.store.stampAll ((source.items?.getD []).drop taken) = (items, start)) {r : Store.Run}
    (hr : Store.accumulate targets items start = r)
    (hx' : r.outcome.store.object? h = some (.stream source taken)) :
    (Action.accumulate (.handle h) targets).run.run S =
      (match r.outcome.fault with
        | some f => .error f
        | none => .ok .none,
      S.leaving r.outcome.store h (leftover source r.rest.length r.outcome.fault.isNone)) := by
  have hitems := run_itemsOf hx
  rw [hi] at hitems
  have hleave := run_leave (S := S.keep r.outcome.store) hx' r.rest.length r.outcome.fault.isNone
  have hkeep : Session.keep { S with store := start } r.outcome.store = S.keep r.outcome.store := rfl
  unfold Action.accumulate
  rw [List.isEmpty_eq_false_iff.mpr hne]
  simp only [Bool.false_eq_true, if_false, run_bind, hitems, run_store, run_modify, hr, hkeep, hleave]
  cases r.outcome.fault <;> rfl

def Leaves (S : Session) (u : Store) (h : Nat) (rest : List Value) (S' : Session) : Prop :=
  (∃ source taken, S' = S.leaving u h (.stream source taken)) ∧ S'.store.remaining? h = some rest

theorem leaves_of_stream {u : Store} {x : Object} (hx : u.object? h = some x) (source : Value) (taken : Nat) :
    S.Leaves u h ((source.items?.getD []).drop taken) (S.leaving u h (.stream source taken)) := by
  have hu : (S.keep u).store.object? h = some x := hx
  refine ⟨⟨source, taken, rfl⟩, Store.remaining?_eq_some.mpr ⟨source, taken, ?_, rfl⟩⟩
  exact (Store.object?_put hu _ h).trans (if_pos rfl)

end

end Session

namespace Store

/-- Feeding values to targets makes the calls of the grid in their order, up to the first one that
fails, and the values after the one that it fails at have not been taken. So a row of values can be
fed in parts. A stream that is fed then holds nothing, or the values that have not been taken, and without
targets nothing happens to it. -/
theorem accumulate_in_order {targets : List Value} (hne : targets ≠ []) :
    (∀ s values,
      (∃ u, Calls s (grid targets values) u ∧ accumulate targets values s = ⟨⟨u, none⟩, []⟩) ∨
        ∃ i o f, Breaks s targets values i o f ∧ accumulate targets values s = ⟨o, values.drop (i + 1)⟩) ∧
    (∀ s vs ws, (accumulate targets vs s).outcome.fault = none →
      accumulate targets (vs ++ ws) s = accumulate targets ws (accumulate targets vs s).outcome.store) ∧
    (∀ (S : Session) h values items start, S.store.remaining? h = some values →
      S.store.stampAll values = (items, start) →
      (S.store.Tallyless ∨ (accumulate targets items start).outcome.store.object? h = S.store.object? h) →
      (∃ u S', Calls start (grid targets items) u ∧
          (Action.accumulate (.handle h) targets).run.run S = (.ok .none, S') ∧ S.Leaves u h [] S') ∨
        ∃ i o f S', Breaks start targets items i o f ∧
          (Action.accumulate (.handle h) targets).run.run S = (.error f, S') ∧
            S.Leaves o.store h (values.drop (i + 1)) S') ∧
    ∀ S v, (Action.accumulate v []).run.run S = (.error (.argument .noAccumulators), S) := by
  refine ⟨?_, ?_, ?_, fun S v => rfl⟩
  · intro s values
    rw [accumulate_of_ne_nil hne]
    exact feedAll_calls targets values s
  · intro s vs ws h
    rw [accumulate_of_ne_nil hne] at h ⊢
    rw [accumulate_of_ne_nil hne, accumulate_of_ne_nil hne]
    exact feedAll_append targets vs ws h
  · intro S h values items start hv hi hkept
    obtain ⟨source, taken, hx, rfl⟩ := remaining?_eq_some.mp hv
    obtain ⟨hlength, hstart⟩ := stampAll_eq hi
    have hx' : (accumulate targets items start).outcome.store.object? h = some (.stream source taken) := by
      rcases hkept with hn | hk
      · exact object?_accumulate_stream (hstart ▸ hn) targets items (hstart ▸ hx)
      · exact hk.trans hx
    have hrun := Session.run_accumulate hx hne hi rfl hx'
    rw [accumulate_of_ne_nil hne] at hrun hx'
    rcases feedAll_calls targets items start with ⟨u, hc, hr⟩ | ⟨i, o, f, hb, hr⟩
    · rw [hr] at hrun hx'
      exact .inl ⟨u, _, hc, hrun, Session.leaves_of_stream hx' _ _⟩
    · rw [hr] at hrun hx'
      have ⟨j, v, t, u, hiv, _, _, _, hf⟩ := hb
      have hlt : i < items.length := (List.getElem?_eq_some_iff.mp hiv).1
      rw [hf] at hrun
      -- what is left is counted from the end of the source
      have hrest : taken + (i + 1) = (source.items?.getD []).length - (items.drop (i + 1)).length := by
        rw [List.length_drop] at hlength ⊢
        omega
      refine .inr ⟨i, o, f, _, hb, hrun, ?_⟩
      rw [List.drop_drop, hrest]
      exact Session.leaves_of_stream hx' _ _

def textStream : Session where
  store := ((empty.create (.statistic .mean false)).adapt (.handle 0) (.ofConversion .none .float)).push
    (.stream (.list [.text "1" 3, .text "one" 4, .text "2" 5] 2) 0)
  bindings := []
  register := .empty
  log := []

theorem accumulate_in_order_of_textStream :
    textStream.store.Tallyless ∧
      (∃ f S, (Action.accumulate (.handle 2) [.handle 1, .handle 0]).run.run textStream = (.error f, S) ∧
        S.store.remaining? 2 = some [.text "2" 5]) ∧
      accumulate [.handle 1, .handle 0] [.text "1" 3, .text "2" 5] textStream.store =
        accumulate [.handle 1, .handle 0] [.text "2" 5]
          (accumulate [.handle 1, .handle 0] [.text "1" 3] textStream.store).outcome.store := by
  have hn : textStream.store.Tallyless := by
    intro h t
    rcases h with _ | _ | _ | h <;> exact nofun
  obtain ⟨-, hsplit, hstream, -⟩ := accumulate_in_order (List.cons_ne_nil (.handle 1) [.handle 0])
  refine ⟨hn, ?_, hsplit _ [.text "1" 3] [.text "2" 5] (by decide +kernel)⟩
  have hfails : ((Action.accumulate (.handle 2) [.handle 1, .handle 0]).run.run textStream).1.isOk = false := by
    decide +kernel
  have hleft : (((Action.accumulate (.handle 2) [.handle 1, .handle 0]).run.run textStream).2.store.remaining? 2).map
      List.length = some 1 := by decide +kernel
  rcases hstream textStream 2 _ _ _ rfl rfl (.inl hn) with ⟨_, _, _, hr, _⟩ | ⟨i, _, f, S, _, hr, _, hrest⟩
  · rw [hr] at hfails
    cases hfails
  · rw [hr, hrest] at hleft
    refine ⟨f, S, hr, hrest.trans ?_⟩
    rcases i with _ | _ | i
    · cases hleft
    · rfl
    · simp [Value.items?] at hleft

end Store

end StreamStat
