import Courier.Proofs.Auth.Move

/-!
# What holds between the parts of a manager

A manager keeps its slot, the refresh that callers join, its generation and the requests without an
answer in parts of their own. How these fit together is an invariant in two layers.

* `Manager.Numbered`: requests bear distinct numbers. Every step keeps this (`Numbered.move`), so it
  holds in every run, however long (`Numbered.after`).
* `Manager.Coherent`: requests also bear distinct generations, none ahead of the manager's; there is
  a refresh to join exactly while the slot is one of a refresh, and it is the only one of the
  current generation; an exchange of the current generation finds the slot as it left it. A new
  generation keeps this as long as it differs from all earlier ones (`Coherent.move`), hence the
  bound on the number of generations in `Coherent.after`.

Numbers and generations are both stamps on requests, and `Stamped` is what is the same about them.
-/

namespace Courier.Auth

open Courier.Http Courier.Store Courier.Time

/-! ## Stamps -/

/-- Where stamps ascend, a stamp tells which element it is. -/
theorem eq_of_ascending {α : Type} {f : α → Nat} {l : List α} (h : l.Pairwise (f · < f ·))
    {x y : α} (hx : x ∈ l) (hy : y ∈ l) (he : f x = f y) : x = y := by
  induction h with
  | nil => cases hx
  | @cons z l hlt _ ih =>
    rcases List.mem_cons.mp hx with rfl | hx' <;> rcases List.mem_cons.mp hy with rfl | hy'
    · rfl
    · exact absurd he (Nat.ne_of_lt (hlt _ hy'))
    · exact absurd he (Nat.ne_of_gt (hlt _ hx'))
    · exact ih hx' hy'

/-- Where stamps ascend, what only one element has is found once. -/
theorem filter_eq_singleton {α : Type} {f : α → Nat} {l : List α} (h : l.Pairwise (f · < f ·))
    {x : α} (hx : x ∈ l) {p : α → Bool} (hp : ∀ y ∈ l, p y = true ↔ y = x) :
    l.filter p = [x] := by
  have hmem : ∀ y ∈ l.filter p, y = x := by
    intro y hy
    obtain ⟨hy, hpy⟩ := List.mem_filter.mp hy
    exact (hp y hy).mp hpy
  have hfound : x ∈ l.filter p := List.mem_filter.mpr ⟨hx, (hp x hx).mpr rfl⟩
  have hsorted := h.filter p
  match hl : l.filter p, hmem, hfound, hsorted with
  | [y], hmem, _, _ => rw [hmem y (.head _)]
  | y :: z :: rest, hmem, _, hsorted =>
    have hlt := (List.pairwise_cons.mp hsorted).1 z (.head _)
    rw [hmem y (.head _), hmem z (.tail _ (.head _))] at hlt
    exact absurd hlt (Nat.lt_irrefl _)

/-- Requests of both kinds bear distinct stamps below a bound, greater ones if they are later. -/
structure Stamped (f : Refresh → Nat) (g : Authorization → Nat) (bound : Nat)
    (rs : List Refresh) (as : List Authorization) : Prop where
  refresh_lt : ∀ r ∈ rs, f r < bound
  authorization_lt : ∀ a ∈ as, g a < bound
  refreshes : rs.Pairwise (f · < f ·)
  authorizations : as.Pairwise (g · < g ·)
  apart : ∀ r ∈ rs, ∀ a ∈ as, f r ≠ g a

namespace Stamped

variable {f : Refresh → Nat} {g : Authorization → Nat} {bound : Nat} {rs : List Refresh}
  {as : List Authorization}

/-- Without requests there is nothing to tell apart. -/
theorem nil : Stamped f g bound [] [] := by
  constructor <;> simp

/-- Requests that are answered leave the others distinct. -/
theorem sublist (h : Stamped f g bound rs as) {rs' : List Refresh} {as' : List Authorization}
    (hr : rs'.Sublist rs) (ha : as'.Sublist as) : Stamped f g bound rs' as' where
  refresh_lt r hmem := h.refresh_lt r (hr.subset hmem)
  authorization_lt a hmem := h.authorization_lt a (ha.subset hmem)
  refreshes := h.refreshes.sublist hr
  authorizations := h.authorizations.sublist ha
  apart r hmem a hmem' := h.apart r (hr.subset hmem) a (ha.subset hmem')

/-- The bound may rise. -/
theorem mono (h : Stamped f g bound rs as) {bound' : Nat} (hle : bound ≤ bound') :
    Stamped f g bound' rs as where
  refresh_lt r hr := Nat.lt_of_lt_of_le (h.refresh_lt r hr) hle
  authorization_lt a ha := Nat.lt_of_lt_of_le (h.authorization_lt a ha) hle
  refreshes := h.refreshes
  authorizations := h.authorizations
  apart := h.apart

/-- A refresh whose stamp is the bound is told from all others. -/
theorem addRefresh (h : Stamped f g bound rs as) {r : Refresh} (hr : f r = bound) :
    Stamped f g (bound + 1) (rs ++ [r]) as where
  refresh_lt s hs := by
    rcases List.mem_append.mp hs with hs | hs
    · exact Nat.lt_succ_of_lt (h.refresh_lt s hs)
    · rw [List.mem_singleton.mp hs, hr]
      exact Nat.lt_succ_self bound
  authorization_lt a ha := Nat.lt_succ_of_lt (h.authorization_lt a ha)
  refreshes := by
    refine List.pairwise_append.mpr ⟨h.refreshes, List.pairwise_singleton _ _, ?_⟩
    intro s hs t ht
    rw [List.mem_singleton.mp ht, hr]
    exact h.refresh_lt s hs
  authorizations := h.authorizations
  apart s hs a ha := by
    rcases List.mem_append.mp hs with hs | hs
    · exact h.apart s hs a ha
    · rw [List.mem_singleton.mp hs, hr]
      exact Nat.ne_of_gt (h.authorization_lt a ha)

/-- An exchange whose stamp is the bound is told from all others. -/
theorem addAuthorization (h : Stamped f g bound rs as) {a : Authorization} (ha : g a = bound) :
    Stamped f g (bound + 1) rs (as ++ [a]) where
  refresh_lt r hr := Nat.lt_succ_of_lt (h.refresh_lt r hr)
  authorization_lt b hb := by
    rcases List.mem_append.mp hb with hb | hb
    · exact Nat.lt_succ_of_lt (h.authorization_lt b hb)
    · rw [List.mem_singleton.mp hb, ha]
      exact Nat.lt_succ_self bound
  refreshes := h.refreshes
  authorizations := by
    refine List.pairwise_append.mpr ⟨h.authorizations, List.pairwise_singleton _ _, ?_⟩
    intro b hb c hc
    rw [List.mem_singleton.mp hc, ha]
    exact h.authorization_lt b hb
  apart r hr b hb := by
    rcases List.mem_append.mp hb with hb | hb
    · exact h.apart r hr b hb
    · rw [List.mem_singleton.mp hb, ha]
      exact Nat.ne_of_lt (h.refresh_lt r hr)

/-- A stamp tells which refresh it is. -/
theorem refresh_inj (h : Stamped f g bound rs as) {r s : Refresh} (hr : r ∈ rs) (hs : s ∈ rs)
    (he : f r = f s) : r = s :=
  eq_of_ascending h.refreshes hr hs he

/-- A stamp tells which exchange it is. -/
theorem authorization_inj (h : Stamped f g bound rs as) {a b : Authorization} (ha : a ∈ as)
    (hb : b ∈ as) (he : g a = g b) : a = b :=
  eq_of_ascending h.authorizations ha hb he

end Stamped

namespace Manager

variable {m m' : Manager} {e : Event} {out : List Output}

/-! ## Numbers -/

/-- Requests are told apart by their numbers, and the next number is a new one. -/
def Numbered (m : Manager) : Prop :=
  Stamped (·.number) (·.number) m.requests m.refreshes m.authorizations

/-- Nothing under way, nothing to tell apart. -/
theorem AtRest.numbered (h : m.AtRest) : m.Numbered := by
  unfold Numbered
  rw [h.refreshes, h.authorizations]
  exact .nil

/-- The end of a refresh keeps the others apart. -/
theorem Numbered.refreshEnd (h : m.Numbered) {r : Refresh} {u : Ruling} {now : Instant}
    (he : RefreshEnd m r u now m' out) : m'.Numbered := by
  cases he <;> exact Stamped.sublist h List.filter_sublist (.refl _)

/-- The end of an exchange keeps the others apart. -/
theorem Numbered.exchangeEnd (h : m.Numbered) {a : Authorization} {u : Ruling} {now : Instant}
    (he : ExchangeEnd m a u now m' out) : m'.Numbered := by
  cases he <;> exact Stamped.sublist h (.refl _) List.filter_sublist

/-- **A step keeps requests apart by their numbers.** -/
theorem Numbered.move (h : m.Numbered) (hm : Move m e m' out) : m'.Numbered := by
  cases hm with
  | started hd hf hs => exact Stamped.addRefresh h rfl
  | began => exact Stamped.addAuthorization h rfl
  | left => exact Stamped.sublist h (.refl _) List.filter_sublist
  | refreshEnds hr he => exact h.refreshEnd he
  | exchangeEnds hr ha he => exact h.exchangeEnd he
  | _ => exact h

/-- In every run, requests are told apart by their numbers. -/
theorem Numbered.after (h : m.Numbered) (es : List Event) : (m.after es).Numbered := by
  apply after_induction
  · intro m e hm
    exact hm.move (step_move m e)
  · exact h

/-! ## Generations -/

/-- A generation is followed by one that is greater by one, as long as there are new ones. -/
theorem toNat_succ {g : Generation} (h : g.toNat + 1 < UInt64.size) :
    (g + 1).toNat = g.toNat + 1 := by
  rw [UInt64.toNat_add]
  exact Nat.mod_eq_of_lt h

/-- A generation is followed by another one. -/
theorem succ_ne (g : Generation) : g + 1 ≠ g := by
  intro h
  have hnat := congrArg UInt64.toNat h
  rw [UInt64.toNat_add, UInt64.toNat_one] at hnat
  have := g.toNat_lt
  omega

/-- A refresh that counts is of the current generation. -/
theorem generation_eq_of_awaits {r : Refresh} (h : m.awaits r = true) :
    r.generation = m.generation := by
  simp only [awaits, Bool.and_eq_true, beq_iff_eq] at h
  exact h.1.symm

/-- A step begins at most one generation. -/
theorem Move.generation_eq (hm : Move m e m' out) :
    m'.generation = m.generation ∨ m'.generation = m.generation + 1 := by
  cases hm with
  | started hd hf hs => exact .inr rfl
  | began => exact .inr rfl
  | forgotten => exact .inr rfl
  | refreshEnds hr he => cases he <;> exact .inl rfl
  | exchangeEnds hr ha he => cases he <;> exact .inl rfl
  | _ => exact .inl rfl

/-- Where there is room for the generations of a run, there is room for one that the first step
begins, and after it for those of the other steps. -/
theorem room_step {es : List Event} (hroom : m.generation.toNat + m.bumps (e :: es) < UInt64.size) :
    ((m.step e).1.generation ≠ m.generation → m.generation.toNat + 1 < UInt64.size) ∧
      (m.step e).1.generation.toNat + (m.step e).1.bumps es < UInt64.size := by
  simp only [bumps] at hroom
  rcases (step_move m e).generation_eq with hg | hg
  · rw [if_pos hg] at hroom
    rw [hg]
    constructor
    · intro hne
      exact absurd rfl hne
    · omega
  · rw [if_neg (hg ▸ succ_ne _)] at hroom
    rw [hg, toNat_succ (by omega)]
    constructor
    · intro _
      omega
    · omega

/-- Requests are told apart by their generations, and none is ahead of the manager's. -/
def Dated (m : Manager) : Prop :=
  Stamped (·.generation.toNat) (·.generation.toNat) (m.generation.toNat + 1) m.refreshes
    m.authorizations

/-- The parts of a manager fit together. -/
structure Coherent (m : Manager) : Prop where
  /-- Requests are told apart by their numbers. -/
  numbers : m.Numbered
  /-- Requests are told apart by their generations. -/
  generations : m.Dated
  /-- Callers wait for refreshes that the issuer has not answered. -/
  waiting : ∀ w ∈ m.waiters, ∃ r ∈ m.refreshes, r.number = w.number
  /-- The refresh to join is one of the current generation and of the credential in the slot. -/
  running : ∀ n, m.flight = some (.running n) →
    ∃ r ∈ m.refreshes, r.number = n ∧ r.generation = m.generation ∧
      m.slot = .refreshing r.credential
  /-- A refresh that has been broken off stays in the slot. -/
  brokenOff : m.flight = some .brokenOff → m.slot.isRefreshing = true
  /-- Without a refresh to join, the slot is not one of a refresh. -/
  idle : m.flight = none → m.slot.isRefreshing = false
  /-- A refresh of the current generation is the one to join. -/
  current : ∀ r ∈ m.refreshes, r.generation = m.generation → m.flight = some (.running r.number)
  /-- An exchange of the current generation finds the slot as it left it. -/
  exchanging : ∀ a ∈ m.authorizations, a.generation = m.generation → m.slot = .authorizing

/-- The parts of a manager fit together where nothing is under way that counts. -/
theorem coherent_of_flight_eq_none (hnumbers : m.Numbered) (hgens : m.Dated)
    (hwaiting : ∀ w ∈ m.waiters, ∃ r ∈ m.refreshes, r.number = w.number)
    (hf : m.flight = none) (hs : m.slot.isRefreshing = false)
    (hr : ∀ r ∈ m.refreshes, r.generation ≠ m.generation)
    (ha : ∀ a ∈ m.authorizations, a.generation = m.generation → m.slot = .authorizing) :
    m.Coherent := by
  refine ⟨hnumbers, hgens, hwaiting, ?running, ?brokenOff, fun _ => hs, ?current, ha⟩
  case running =>
    intro n hn
    rw [hf] at hn
    cases hn
  case brokenOff =>
    intro hbroken
    rw [hf] at hbroken
    cases hbroken
  case current =>
    intro r hmem hg
    exact absurd hg (hr r hmem)

/-- The parts of a manager with nothing under way fit together. -/
theorem AtRest.coherent (h : m.AtRest) : m.Coherent := by
  apply coherent_of_flight_eq_none h.numbered
  case hgens =>
    unfold Dated
    rw [h.refreshes, h.authorizations]
    exact .nil
  case hf => exact h.flight
  case hs => exact h.notRefreshing
  all_goals simp [h.refreshes, h.authorizations, h.waiters]

namespace Coherent

/-- A generation tells which refresh it is. -/
theorem refresh_inj (h : m.Coherent) {r s : Refresh} (hr : r ∈ m.refreshes) (hs : s ∈ m.refreshes)
    (he : r.generation = s.generation) : r = s :=
  h.generations.refresh_inj hr hs (congrArg UInt64.toNat he)

/-- A generation tells which exchange it is. -/
theorem authorization_inj (h : m.Coherent) {a b : Authorization} (ha : a ∈ m.authorizations)
    (hb : b ∈ m.authorizations) (he : a.generation = b.generation) : a = b :=
  h.generations.authorization_inj ha hb (congrArg UInt64.toNat he)

/-- No refresh and no exchange have one generation. -/
theorem generation_ne (h : m.Coherent) {r : Refresh} {a : Authorization} (hr : r ∈ m.refreshes)
    (ha : a ∈ m.authorizations) : r.generation ≠ a.generation :=
  fun he => h.generations.apart r hr a ha (congrArg UInt64.toNat he)

/-- Unless the slot is one of a refresh, there is none to join. -/
theorem flight_eq_none (h : m.Coherent) (hs : m.slot.isRefreshing = false) : m.flight = none := by
  cases hf : m.flight with
  | none => rfl
  | some flight =>
    cases flight with
    | running n =>
      obtain ⟨r, -, -, -, hr⟩ := h.running n hf
      simp [hr, Slot.isRefreshing] at hs
    | brokenOff => simp [h.brokenOff hf] at hs

/-- A refresh counts exactly if it is the one to join. -/
theorem awaits_iff (h : m.Coherent) {r : Refresh} (hr : r ∈ m.refreshes) :
    m.awaits r = true ↔ m.flight = some (.running r.number) := by
  constructor
  · intro hw
    simp only [awaits, Bool.and_eq_true, beq_iff_eq] at hw
    exact h.current r hr hw.1.symm
  · intro hf
    obtain ⟨s, hs, hn, hg, hslot⟩ := h.running _ hf
    obtain rfl := Stamped.refresh_inj h.numbers hs hr hn
    simp [awaits, hg, hslot, Slot.isRefreshing]

/-- A refresh counts exactly if it is of the current generation. -/
theorem awaits_iff_generation (h : m.Coherent) {r : Refresh} (hr : r ∈ m.refreshes) :
    m.awaits r = true ↔ r.generation = m.generation := by
  constructor
  · exact generation_eq_of_awaits
  · intro hg
    exact (h.awaits_iff hr).mpr (h.current r hr hg)

/-- While an exchange of the current generation goes on, there is no refresh to join. -/
theorem flight_of_exchanging (h : m.Coherent) {a : Authorization} (ha : a ∈ m.authorizations)
    (hg : a.generation = m.generation) : m.flight = none :=
  h.flight_eq_none (by rw [h.exchanging a ha hg]; rfl)

/-- Who does not wait for a refresh that ends waits for one that goes on. -/
theorem waiting_filter (h : m.Coherent) (n : Nat) :
    ∀ w ∈ m.waiters.filter (·.number != n),
      ∃ r ∈ m.refreshes.filter (·.number != n), r.number = w.number := by
  intro w hw
  obtain ⟨hw, hn⟩ := List.mem_filter.mp hw
  obtain ⟨r, hr, he⟩ := h.waiting w hw
  exact ⟨r, List.mem_filter.mpr ⟨hr, by rw [he]; exact hn⟩, he⟩

/-- Once the refresh of the current generation has ended, no request is of that generation. -/
theorem ne_of_refresh (h : m.Coherent) {r : Refresh} (hr : r ∈ m.refreshes)
    (hg : r.generation = m.generation) :
    (∀ s ∈ m.refreshes.filter (·.number != r.number), s.generation ≠ m.generation) ∧
      ∀ a ∈ m.authorizations, a.generation ≠ m.generation := by
  constructor
  · intro s hs he
    obtain ⟨hs, hn⟩ := List.mem_filter.mp hs
    obtain rfl := h.refresh_inj hs hr (he.trans hg.symm)
    simp at hn
  · intro a ha he
    exact h.generation_ne hr ha (hg.trans he.symm)

/-- Once the exchange of the current generation has ended, no request is of that generation. -/
theorem ne_of_authorization (h : m.Coherent) {a : Authorization} (ha : a ∈ m.authorizations)
    (hg : a.generation = m.generation) :
    (∀ r ∈ m.refreshes, r.generation ≠ m.generation) ∧
      ∀ b ∈ m.authorizations.filter (·.number != a.number), b.generation ≠ m.generation := by
  constructor
  · intro r hr he
    exact h.generation_ne hr ha (he.trans hg.symm)
  · intro b hb he
    obtain ⟨hb, hn⟩ := List.mem_filter.mp hb
    obtain rfl := h.authorization_inj hb ha (he.trans hg.symm)
    simp at hn

/-- A new generation is ahead of all requests, if it is a new one. -/
theorem ne_succ (h : m.Coherent) (hroom : m.generation.toNat + 1 < UInt64.size) :
    (∀ r ∈ m.refreshes, r.generation ≠ m.generation + 1) ∧
      ∀ a ∈ m.authorizations, a.generation ≠ m.generation + 1 := by
  constructor
  · intro r hr he
    have hlt := h.generations.refresh_lt r hr
    rw [he, toNat_succ hroom] at hlt
    exact Nat.lt_irrefl _ hlt
  · intro a ha he
    have hlt := h.generations.authorization_lt a ha
    rw [he, toNat_succ hroom] at hlt
    exact Nat.lt_irrefl _ hlt

/-- The end of a refresh that does not count leaves the others as they were. -/
theorem filter_refreshes (h : m.Coherent) {n : Nat} (hf : m.flight ≠ some (.running n)) :
    Coherent { m with
      refreshes := m.refreshes.filter (·.number != n)
      waiters := m.waiters.filter (·.number != n) } := by
  refine { h with numbers := ?_, generations := ?_, waiting := ?_, running := ?_, current := ?_ }
  · exact Stamped.sublist h.numbers List.filter_sublist (.refl _)
  · exact Stamped.sublist h.generations List.filter_sublist (.refl _)
  · exact h.waiting_filter n
  · intro k hk
    obtain ⟨r, hr, rfl, hg, hs⟩ := h.running k hk
    have hne : r.number ≠ n := by
      rintro rfl
      exact hf hk
    exact ⟨r, List.mem_filter.mpr ⟨hr, bne_iff_ne.mpr hne⟩, rfl, hg, hs⟩
  · intro r hr hg
    exact h.current r (List.mem_filter.mp hr).1 hg

/-- The end of the refresh of the current generation leaves a slot for which nothing is under
way. -/
theorem settle_refresh (h : m.Coherent) {r : Refresh} (hr : r ∈ m.refreshes)
    (hg : r.generation = m.generation) {slot : Slot} {file : Option Node}
    (hs : slot.isRefreshing = false) :
    Coherent { m with
      flight := none
      slot
      file
      refreshes := m.refreshes.filter (·.number != r.number)
      waiters := m.waiters.filter (·.number != r.number) } := by
  obtain ⟨hr', ha'⟩ := h.ne_of_refresh hr hg
  apply coherent_of_flight_eq_none
  case hnumbers => exact Stamped.sublist h.numbers List.filter_sublist (.refl _)
  case hgens => exact Stamped.sublist h.generations List.filter_sublist (.refl _)
  case hwaiting => exact h.waiting_filter r.number
  case hf => rfl
  case hs => exact hs
  case hr => exact hr'
  case ha =>
    intro a ha hg'
    exact absurd hg' (ha' a ha)

/-- The end of a refresh keeps the parts of a manager together. -/
theorem refreshEnd (h : m.Coherent) {r : Refresh} (hr : r ∈ m.refreshes) {u : Ruling}
    {now : Instant} (he : RefreshEnd m r u now m' out) : m'.Coherent := by
  cases he with
  | broken hu hf =>
    obtain ⟨hf, rfl⟩ | ⟨hf, rfl⟩ := hf
    · -- Nothing is of the current generation any more, but the slot is still one of a refresh.
      obtain ⟨s, -, -, -, hslot⟩ := h.running _ hf
      obtain ⟨hr', -⟩ := h.ne_of_refresh hr (generation_eq_of_awaits ((h.awaits_iff hr).mpr hf))
      constructor
      case numbers => exact Stamped.sublist h.numbers List.filter_sublist (.refl _)
      case generations => exact Stamped.sublist h.generations List.filter_sublist (.refl _)
      case waiting => exact h.waiting_filter r.number
      case running =>
        intro n hn
        cases hn
      case brokenOff =>
        intro _
        simp [hslot, Slot.isRefreshing]
      case idle =>
        intro hn
        cases hn
      case current =>
        intro t ht hg
        exact absurd hg (hr' t ht)
      case exchanging => exact h.exchanging
    · exact h.filter_refreshes hf
  | late hu hw =>
    apply h.filter_refreshes
    rw [Ne, ← h.awaits_iff hr, hw]
    exact Bool.false_ne_true
  | granted hu hw => exact h.settle_refresh hr (generation_eq_of_awaits hw) rfl
  | refused hu hw => exact h.settle_refresh hr (generation_eq_of_awaits hw) rfl

/-- Taking exchanges off the list keeps the parts of a manager together. -/
theorem filter_authorizations (h : m.Coherent) (p : Authorization → Bool) :
    Coherent { m with authorizations := m.authorizations.filter p } := by
  refine { h with numbers := ?_, generations := ?_, exchanging := ?_ }
  · exact Stamped.sublist h.numbers (.refl _) List.filter_sublist
  · exact Stamped.sublist h.generations (.refl _) List.filter_sublist
  · intro a ha hg
    exact h.exchanging a (List.mem_filter.mp ha).1 hg

/-- The end of an exchange that counts leaves a slot for which nothing is under way. -/
theorem settle_authorization (h : m.Coherent) {a : Authorization} (ha : a ∈ m.authorizations)
    (hg : a.generation = m.generation) {slot : Slot} {file : Option Node}
    (hs : slot.isRefreshing = false) :
    Coherent { m with
      slot
      file
      authorizations := m.authorizations.filter (·.number != a.number) } := by
  obtain ⟨hr', ha'⟩ := h.ne_of_authorization ha hg
  have hrest := h.filter_authorizations (·.number != a.number)
  apply coherent_of_flight_eq_none
  case hnumbers => exact hrest.numbers
  case hgens => exact hrest.generations
  case hwaiting => exact h.waiting
  case hf => exact h.flight_of_exchanging ha hg
  case hs => exact hs
  case hr => exact hr'
  case ha =>
    intro b hb hg'
    exact absurd hg' (ha' b hb)

/-- The end of an exchange keeps the parts of a manager together. -/
theorem exchangeEnd (h : m.Coherent) {a : Authorization} (ha : a ∈ m.authorizations) {u : Ruling}
    {now : Instant} (he : ExchangeEnd m a u now m' out) : m'.Coherent := by
  cases he with
  | broken hu => exact h.filter_authorizations _
  | grantedLate hu hg => exact h.filter_authorizations _
  | granted hu hg => exact h.settle_authorization ha hg.symm rfl
  | refusedLate hu hg => exact h.filter_authorizations _
  | refused hu hg hs => exact h.settle_authorization ha hg.symm (Slot.isRefreshing_settled _)

/-- A refresh that begins in a generation of its own is the only request of that generation. -/
theorem start (h : m.Coherent) (hroom : m.generation.toNat + 1 < UInt64.size) (caller : Caller)
    (c : Credential) :
    Coherent { m with
      slot := .refreshing c
      flight := some (.running m.requests)
      generation := m.generation + 1
      requests := m.requests + 1
      refreshes := m.refreshes ++ [⟨m.requests, m.generation + 1, c⟩]
      waiters := m.waiters ++ [⟨caller, m.requests⟩] } := by
  obtain ⟨hr, ha⟩ := h.ne_succ hroom
  have hnew : (⟨m.requests, m.generation + 1, c⟩ : Refresh) ∈
      m.refreshes ++ [⟨m.requests, m.generation + 1, c⟩] := by simp
  constructor
  case numbers => exact Stamped.addRefresh h.numbers rfl
  case generations =>
    unfold Dated
    simp only [toNat_succ hroom]
    exact Stamped.addRefresh h.generations (toNat_succ hroom)
  case waiting =>
    intro w hw
    rcases List.mem_append.mp hw with hw | hw
    · obtain ⟨r, hr, he⟩ := h.waiting w hw
      exact ⟨r, List.mem_append_left _ hr, he⟩
    · rw [List.mem_singleton.mp hw]
      exact ⟨_, hnew, rfl⟩
  case running =>
    intro n hn
    cases hn
    exact ⟨_, hnew, rfl, rfl, rfl⟩
  case brokenOff =>
    intro _
    rfl
  case idle =>
    intro hf
    cases hf
  case current =>
    intro r hr' hg
    rcases List.mem_append.mp hr' with hr' | hr'
    · exact absurd hg (hr r hr')
    · rw [List.mem_singleton.mp hr']
  case exchanging =>
    intro a ha' hg
    exact absurd hg (ha a ha')

/-- An exchange that begins in a generation of its own is the only request of that generation. -/
theorem begin (h : m.Coherent) (hroom : m.generation.toNat + 1 < UInt64.size) (caller : Caller) :
    Coherent { m with
      slot := .authorizing
      flight := none
      generation := m.generation + 1
      requests := m.requests + 1
      authorizations :=
        m.authorizations ++ [⟨m.requests, caller, m.generation + 1, m.slot⟩] } := by
  obtain ⟨hr, -⟩ := h.ne_succ hroom
  apply coherent_of_flight_eq_none
  case hnumbers => exact Stamped.addAuthorization h.numbers rfl
  case hgens =>
    unfold Dated
    simp only [toNat_succ hroom]
    exact Stamped.addAuthorization h.generations (toNat_succ hroom)
  case hwaiting => exact h.waiting
  case hf => rfl
  case hs => rfl
  case hr => exact hr
  case ha =>
    intro a _ _
    rfl

/-- Once everything is forgotten in a generation of its own, no request is of that generation. -/
theorem forget (h : m.Coherent) (hroom : m.generation.toNat + 1 < UInt64.size)
    (file : Option Node) :
    Coherent { m with
      slot := .unauthenticated
      flight := none
      generation := m.generation + 1
      file } := by
  obtain ⟨hr, ha⟩ := h.ne_succ hroom
  apply coherent_of_flight_eq_none
  case hnumbers => exact h.numbers
  case hgens =>
    unfold Dated
    simp only [toNat_succ hroom]
    exact Stamped.mono h.generations (Nat.le_succ _)
  case hwaiting => exact h.waiting
  case hf => rfl
  case hs => rfl
  case hr => exact hr
  case ha =>
    intro a ha' hg
    exact absurd hg (ha a ha')

/-- **A step keeps the parts of a manager together**, if a generation that it begins is a new
one. -/
theorem move (h : m.Coherent) (hm : Move m e m' out)
    (hroom : m'.generation ≠ m.generation → m.generation.toNat + 1 < UInt64.size) :
    m'.Coherent := by
  cases hm with
  | answered hd => exact h
  | stuck hd hf => exact h
  | unasked hr ha => exact h
  | overwritten => exact { h with }
  | refreshEnds hr he => exact h.refreshEnd hr he
  | exchangeEnds hr ha he => exact h.exchangeEnd ha he
  | started hd hf hs => exact h.start (hroom (succ_ne _)) _ _
  | began => exact h.begin (hroom (succ_ne _)) _
  | forgotten => exact h.forget (hroom (succ_ne _)) _
  | joined hd hf =>
    refine { h with waiting := ?_ }
    intro w hw
    rcases List.mem_append.mp hw with hw | hw
    · exact h.waiting w hw
    · obtain ⟨r, hr, hn, -⟩ := h.running _ hf
      rw [List.mem_singleton.mp hw]
      exact ⟨r, hr, hn⟩
  | @left caller =>
    refine { h.filter_authorizations (·.caller != caller) with waiting := ?_ }
    intro w hw
    exact h.waiting w (List.mem_filter.mp hw).1

/-- A step of a run keeps the parts of a manager together, if there is room for the generations of
the run. -/
theorem step (h : m.Coherent) {es : List Event}
    (hroom : m.generation.toNat + m.bumps (e :: es) < UInt64.size) : (m.step e).1.Coherent :=
  h.move (step_move m e) (room_step hroom).1

/-- In a run with fewer than 2⁶⁴ generations the parts of a manager stay together. -/
theorem after (h : m.Coherent) {es : List Event}
    (hroom : m.generation.toNat + m.bumps es < UInt64.size) : (m.after es).Coherent := by
  induction es generalizing m with
  | nil => exact h
  | cons e es ih => exact ih (h.step hroom) (room_step hroom).2

end Coherent

/-- In every run of a manager with fewer than 2⁶⁴ generations, its parts fit together. -/
theorem Made.coherent (h : m.Made) {es : List Event} (hroom : m.bumps es < UInt64.size) :
    (m.after es).Coherent := by
  refine h.atRest.coherent.after ?_
  rw [h.atRest.generation]
  simpa using hroom

end Manager

end Courier.Auth
