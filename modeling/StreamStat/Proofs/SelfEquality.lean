import StreamStat.Proofs.Equality
import StreamStat.Proofs.RunningVariance

/-!
# Equality of an account with itself

Accounts are compared by what they keep, be they the same or not. So an account is equal to itself,
and to a copy of it, if and only if no part of its statistic is a NaN (`equal_to_itself_iff`).
-/

namespace StreamStat

/-! ## Extremes of samples -/

section
variable {o : ObjectView} {x v y : Value}

theorem keepLess_eq (h : keepLess o x v = .ok y) : y = x ∨ y = v := by
  unfold keepLess at h
  split at h
  · exact .inr (Except.ok.inj h).symm
  · cases hl : v.lt o x with
    | error f => rw [hl] at h; cases h
    | ok b => rw [hl] at h; cases h; cases b <;> simp

theorem keepGreater_eq (h : keepGreater o x v = .ok y) : y = x ∨ y = v := by
  unfold keepGreater at h
  split at h
  · exact .inr (Except.ok.inj h).symm
  · cases hl : x.lt o v with
    | error f => rw [hl] at h; cases h
    | ok b => rw [hl] at h; cases h; cases b <;> simp

end

namespace Account

theorem extremes_receive (o : ObjectView) (mark : Nat) (a : Account) (v : Value) :
    ∀ w ∈ (a.receive o mark v).1.extremes, w ∈ a.extremes ∨ w = v := by
  rcases a.receive_cases o mark v with ⟨body, stamp, ht, h⟩ | ⟨f, h⟩ | ⟨least, greatest, less, f, hb, hl, _, h⟩
  · rw [h]
    show ∀ w ∈ (a.keep body).extremes, _
    unfold extremes
    generalize a.body = b at ht
    cases ht with
    | min hl => simpa [keep] using keepLess_eq hl
    | max hg => simpa [keep] using keepGreater_eq hg
    | minMax hl hg =>
      have h₁ := keepLess_eq hl
      have h₂ := keepGreater_eq hg
      simp only [keep, List.mem_cons, List.not_mem_nil, or_false]
      rintro w (rfl | rfl) <;> tauto
    | _ => simp [keep]
  · rw [h]
    exact fun w hw => .inl hw
  · have h₁ := keepLess_eq hl
    rw [h]
    unfold extremes
    simp only [keep, hb, List.mem_cons, List.not_mem_nil, or_false]
    rintro w (rfl | rfl) <;> tauto

theorem extremes_fed (ds : List Delivery) (a : Account) :
    ∀ w ∈ (a.fed ds).extremes, w ∈ a.extremes ∨ ∃ d ∈ ds, w = d.sample := by
  induction ds generalizing a with
  | nil => exact fun w hw => .inl hw
  | cons d ds ih =>
    intro w hw
    rcases ih (a.receive d.sight 0 d.sample).1 w hw with h | ⟨e, he, rfl⟩
    · rcases extremes_receive d.sight 0 a d.sample w h with h | rfl
      · exact .inl h
      · exact .inr ⟨d, List.mem_cons_self .., rfl⟩
    · exact .inr ⟨e, List.mem_cons_of_mem _ he, rfl⟩

theorem extremes_opened (c : AccountClass) (tape : Nat) : ∀ w ∈ (opened c tape).extremes, w = .none := by
  cases c with
  | statistic s logged => cases s <;> simp [extremes, opened, AccountClass.initial, Statistic.initial]
  | _ => simp [extremes, opened, AccountClass.initial]

end Account

/-! ## Accounts that have been fed -/

def Event.hands (p : Value → Bool) : Event → Bool
  | .handed _ _ _ v => p v
  | .returned _ _ => true

theorem deliveries_hands {p : Value → Bool} {es : List Event} (he : es.all (Event.hands p) = true) {handle : Nat} :
    ∀ d ∈ deliveries handle es, p d.sample = true := by
  intro d hd
  obtain ⟨e, hm, hd⟩ := List.mem_filterMap.mp hd
  have hp := List.all_eq_true.mp he e hm
  cases e with
  | handed h sight mark v =>
    obtain ⟨_, rfl⟩ : h = handle ∧ ⟨sight, v⟩ = d := by simpa using hd
    exact hp
  | returned h forwarded => cases hd

namespace Account

/-- Whether an account is a view, or what a new account becomes by samples of such a kind. -/
def FedWith (p : Value → Bool) (a : Account) : Prop :=
  a.isView = true ∨ ∃ c tape ds, (∀ d ∈ ds, p d.sample = true) ∧ a.standing = ((opened c tape).fed ds).standing

theorem body_of_standing {a b : Account} (h : a.standing = b.standing) : a.body = b.body := by
  simp only [standing, Prod.mk.injEq] at h
  exact h.2.2

theorem FedWith.extremes {p : Value → Bool} {a : Account} (h : a.FedWith p) (hn : p .none = true) :
    ∀ w ∈ a.extremes, p w = true := by
  rcases h with hv | ⟨c, tape, ds, hp, hs⟩
  · unfold isView at hv
    unfold Account.extremes
    cases hb : a.body <;> simp [hb] at hv ⊢
  · intro w hw
    rw [Account.extremes, body_of_standing hs] at hw
    rcases extremes_fed ds _ w hw with h | ⟨d, hd, rfl⟩
    · rw [extremes_opened c tape w h]
      exact hn
    · exact hp d hd

theorem FedWith.history {p : Value → Bool} {a : Account} (h : a.FedWith p) {handle : Nat} {es : List Event}
    (he : es.all (Event.hands p) = true) : (a.history handle es).FedWith p := by
  cases hv : a.isView with
  | true => exact .inl ((isView_history handle a es).trans hv)
  | false =>
    rcases h with hv' | ⟨c, tape, ds, hp, hs⟩
    · rw [hv] at hv'
      cases hv'
    · refine .inr ⟨c, tape, ds ++ deliveries handle es, ?_, ?_⟩
      · simp only [List.mem_append]
        rintro d (hd | hd)
        · exact hp d hd
        · exact deliveries_hands he d hd
      · rw [standing_history handle es hv hs, fed, fed, fed, List.foldl_append]

def isSettled (a : Account) : Bool :=
  match a.body with
  | .min x | .max x => !x.isNaN
  | .minMax x y => !x.isNaN && !y.isNaN
  | .mean m => !m.isNaN
  | .variance m => !m.mean.isNaN && !m.spread.isNaN
  | .counter | .recorder _ | .view _ _ => true

theorem equals_self {a : Account} (h : a.KeepsPlain) : a.equals a = a.isSettled := by
  unfold KeepsPlain Account.extremes at h
  unfold equals isSettled
  simp only [decide_true, Bool.true_and]
  cases hb : a.body with
  | min x => exact Value.equals_self (h x (by simp [hb]))
  | max x => exact Value.equals_self (h x (by simp [hb]))
  | minMax x y =>
    simp only [Body.equals, Value.equals_self (h x (by simp [hb])), Value.equals_self (h y (by simp [hb]))]
  | mean m => exact m.eq_self
  | variance m => simp only [Body.equals, Double.eq_self]
  | _ => rfl

/-- Without a mean, only a sample can be the NaN. -/
theorem isSettled_of_samples {a : Account} (h : a.FedWith fun v => !v.isNaN) (hm : ∀ m, a.body ≠ .mean m)
    (hv : ∀ m, a.body ≠ .variance m) : a.isSettled = true := by
  have he := h.extremes rfl
  unfold Account.extremes at he
  unfold isSettled
  cases hb : a.body with
  | min x => exact he x (by simp [hb])
  | max x => exact he x (by simp [hb])
  | minMax x y => exact Bool.and_eq_true_iff.mpr ⟨he x (by simp [hb]), he y (by simp [hb])⟩
  | mean m => exact absurd hb (hm m)
  | variance m => exact absurd hb (hv m)
  | _ => rfl

/-- As long as the mean of finite samples is finite, neither it nor the spread is a NaN. -/
theorem isSettled_of_close {s : Statistic} (hs : s.IsMoment) (logged : Bool) (tape : Nat) {ds : List Delivery}
    {xs : List Double} (hr : Readings ds xs) (hf : ∀ x ∈ xs, x.isFinite = true) (hn : xs.length < 2 ^ 53)
    (hc : Moments.Close xs) : (s.fed logged tape ds).isSettled = true := by
  have hk := (Statistic.keeps_fed hs logged tape hr).1
  have hmean := Double.isNaN_of_isFinite ((Moments.isFinite_mean_iff hf hn).mpr hc)
  have hspread := (Moments.spread_nonneg hf hn hc).1
  unfold isSettled
  cases s with
  | mean => rw [show (Statistic.mean.fed logged tape ds).body = _ from hk]; simp [hmean]
  | variance => rw [show (Statistic.variance.fed logged tape ds).body = _ from hk]; simp [hmean, hspread]
  | _ => exact hs.elim

end Account

namespace Store

/-! ## Accounts of a store -/

theorem fedWith_perform {p : Value → Bool} {s : Store} (hn : s.Tallyless) (m : Move)
    (hs : ∀ h a, s.account? h = some a → a.FedWith p) (he : (s.perform m).events.all (Event.hands p) = true)
    {h : Nat} {a : Account} (ha : (s.perform m).outcome.store.account? h = some a) : a.FedWith p := by
  rw [account?_eq_some] at ha
  rcases perform_spec hn m with ⟨x, hx, _, ht⟩ | ⟨_, ht⟩
  · rw [object?_append ht] at ha
    split at ha
    · cases ha
      cases m with
      | create c => cases hx; exact .inr ⟨c, _, [], List.forall_mem_nil _, rfl⟩
      | adapt adoptee c => cases hx; exact .inl rfl
      | copy handle =>
        simp only [Move.listed?, Option.map_eq_some_iff, Object.account.injEq] at hx
        obtain ⟨b, hb, rfl⟩ := hx
        exact hs handle b hb
      | list y passive => cases hx; cases passive
      | _ => cases hx
    · exact hs h a (account?_eq_some.mpr ha)
  · rw [ht.object? h, Option.map_eq_some_iff] at ha
    obtain ⟨y, hy, hya⟩ := ha
    cases y with
    | account b => cases hya; exact (hs h b (account?_eq_some.mpr hy)).history he
    | _ => cases hya

/-- After any moves, all accounts are fed with what has been handed to accounts on the way. -/
theorem fedWith_after {p : Value → Bool} {s : Store} (hn : s.Tallyless) (ms : List Move)
    (hs : ∀ h a, s.account? h = some a → a.FedWith p) (he : (eventsOf ms s).all (Event.hands p) = true) :
    ∀ h a, (s.after ms).account? h = some a → a.FedWith p := by
  induction ms generalizing s with
  | nil => exact hs
  | cons m ms ih =>
    rw [eventsOf, List.all_append, Bool.and_eq_true] at he
    exact ih (tallyless_perform hn m) (fun h a ha => fedWith_perform hn m hs he.1 ha) he.2

theorem fedWith_after_empty {p : Value → Bool} {ms : List Move} (he : (eventsOf ms .empty).all (Event.hands p) = true)
    {h : Nat} {a : Account} (ha : (empty.after ms).account? h = some a) : a.FedWith p :=
  fedWith_after tallyless_empty ms (fun h a ha => by simp [account?, object?_empty] at ha) he h a ha

/-! ## Equality with itself -/

theorem compare_self {s : Store} {h : Nat} {a : Account} (ha : s.account? h = some a) (hp : a.KeepsPlain) :
    (Value.handle h).compare s.view .eq (.handle h) = .ok (.ofBool a.isSettled) := by
  have hx := account?_eq_some.mp ha
  rw [compare_handles hx hx, ← Account.equals_self hp]
  exact Account.compare_of_isPlain _ hp hp

theorem compare_copy {s : Store} {h : Nat} {a : Account} (ha : s.account? h = some a) (hp : a.KeepsPlain) :
    ∃ t, s.copy h = .ok t ∧ t.account? s.next = some a ∧
      (Value.handle s.next).compare t.view .eq (.handle h) = .ok (.ofBool a.isSettled) := by
  have old : (s.push (.account a)).object? h = some (.account a) := by
    rw [object?_append rfl, if_neg (Nat.ne_of_lt (lt_of_account? ha)), account?_eq_some.mp ha]
  have new : (s.push (.account a)).object? s.next = some (.account a) := by
    rw [object?_append rfl]
    exact if_pos rfl
  refine ⟨s.push (.account a), by simp only [Store.copy, ha], account?_eq_some.mpr new, ?_⟩
  rw [compare_handles new old, ← Account.equals_self hp]
  exact Account.compare_of_isPlain _ hp hp

/-- An account that has been fed with plain samples is equal to itself, and a copy of it is equal to
it, if and only if no part of its statistic is a NaN. That is so of all accounts without a mean whose
samples are no NaNs, and of all accounts with one as long as the mean of finite samples is finite. -/
theorem equal_to_itself_iff {s : Store} {h : Nat} {a : Account} (ha : s.account? h = some a)
    (hf : a.FedWith Value.isPlain) :
    (Value.handle h).compare s.view .eq (.handle h) = .ok (.ofBool a.isSettled) ∧
      (Value.handle h).compare s.view .ne (.handle h) = .ok (.ofBool !a.isSettled) ∧
      (∃ t, s.copy h = .ok t ∧ t.account? s.next = some a ∧
        (Value.handle s.next).compare t.view .eq (.handle h) = .ok (.ofBool a.isSettled)) ∧
      ((a.FedWith fun v => !v.isNaN) → (∀ m, a.body ≠ .mean m) → (∀ m, a.body ≠ .variance m) →
        a.isSettled = true) ∧
      ∀ (i : Statistic) logged tape ds xs, i.IsMoment → a.standing = (i.fed logged tape ds).standing →
        Readings ds xs → (∀ x ∈ xs, x.isFinite = true) → xs.length < 2 ^ 53 →
        (Moments.of xs).mean.isFinite = true → a.isSettled = true := by
  have hp : a.KeepsPlain := hf.extremes rfl
  refine ⟨compare_self ha hp, compare_handles_ne (compare_self ha hp), compare_copy ha hp,
    Account.isSettled_of_samples, ?_⟩
  intro i logged tape ds xs hi hs hr hx hn hm
  rw [Account.isSettled, Account.body_of_standing hs]
  exact Account.isSettled_of_close hi logged tape hr hx hn ((Moments.isFinite_mean_iff hx hn).mp hm)

def settledExtremes : List Move :=
  [.create (.statistic .minMax true),
    .accumulate [.handle 0] [.number (.fraction (1 / 3)) 2, .number (.float (.inf false)) 3, .ofInt (-2)]]

theorem equal_to_itself_of_settledExtremes :
    ∃ a, (empty.after settledExtremes).account? 0 = some a ∧ a.FedWith Value.isPlain ∧
      (Value.handle 0).compare (empty.after settledExtremes).view .eq (.handle 0) = .ok (.ofBool true) ∧
      ∃ t, (empty.after settledExtremes).copy 0 = .ok t ∧
        (Value.handle 1).compare t.view .eq (.handle 0) = .ok (.ofBool true) := by
  have hs : ((empty.after settledExtremes).account? 0).map Account.isSettled = some true := by decide +kernel
  have hn : (empty.after settledExtremes).next = 1 := by decide +kernel
  obtain ⟨a, ha, hs⟩ := Option.map_eq_some_iff.mp hs
  have hf : a.FedWith Value.isPlain := fedWith_after_empty (by decide +kernel) ha
  obtain ⟨heq, _, ⟨t, ht, _, hcopy⟩, _⟩ := equal_to_itself_iff ha hf
  rw [hs] at heq hcopy
  rw [hn] at hcopy
  exact ⟨a, ha, hf, heq, t, ht, hcopy⟩

def unsettledAccounts : List Move :=
  [.create (.statistic .mean false), .create (.statistic .min false),
    .accumulate [.handle 0] [.number (.float (.inf false)) 2, .number (.float (.inf false)) 2],
    .feed (.handle 1) (.number (.float .nan) 3)]

/-- A mean need not be equal to itself, nor its copy to it, nor a least sample to itself. -/
theorem not_equal_to_itself :
    (Value.handle 0).compare (empty.after unsettledAccounts).view .eq (.handle 0) = .ok (.ofBool false) ∧
      (Value.handle 0).compare (empty.after unsettledAccounts).view .ne (.handle 0) = .ok (.ofBool true) ∧
      (∃ t, (empty.after unsettledAccounts).copy 0 = .ok t ∧
        (Value.handle 2).compare t.view .eq (.handle 0) = .ok (.ofBool false)) ∧
      (Value.handle 1).compare (empty.after unsettledAccounts).view .eq (.handle 1) = .ok (.ofBool false) := by
  have hs : ((empty.after unsettledAccounts).account? 0).map Account.isSettled = some false := by decide +kernel
  have hs' : ((empty.after unsettledAccounts).account? 1).map Account.isSettled = some false := by decide +kernel
  have hn : (empty.after unsettledAccounts).next = 2 := by decide +kernel
  have he : (eventsOf unsettledAccounts empty).all (Event.hands Value.isPlain) = true := by decide +kernel
  have plain {h : Nat} {a : Account} (ha : (empty.after unsettledAccounts).account? h = some a) : a.KeepsPlain :=
    (fedWith_after_empty he ha).extremes rfl
  obtain ⟨a, ha, hs⟩ := Option.map_eq_some_iff.mp hs
  obtain ⟨b, hb, hs'⟩ := Option.map_eq_some_iff.mp hs'
  have hself := compare_self ha (plain ha)
  have hself' := compare_self hb (plain hb)
  obtain ⟨t, ht, _, hcopy⟩ := compare_copy ha (plain ha)
  rw [hs] at hself hcopy
  rw [hs'] at hself'
  rw [hn] at hcopy
  exact ⟨hself, compare_handles_ne hself, ⟨t, ht, hcopy⟩, hself'⟩

end Store

end StreamStat
