import Courier.Proofs.Auth.Coherence

/-!
# Left waiting for a code to be exchanged

While a code is exchanged, the slot of a manager says so, and whoever asks for a bearer gets none.
That should pass: such a slot should come with an open exchange of the current generation, which
settles what becomes of it. It need not. A manager is `Manager.Orphaned` when the slot is one of an
exchange and no open exchange counts, and an event `Manager.Strands` one that leads there:

* the caller of the exchange that counts goes away;
* the reply to it cannot be dealt with;
* the code is refused, and the exchange began while there was another. What is put back then is not
  what there was before the two, but the slot of the other one, which does not count any more.

There is no other way, and no way back but to log out or to bring back yet another code:
**`orphaned_iff_strands`**, for runs of any length and any number of generations. With two codes
that are both refused, `not_never_orphaned` has a run that ends without any open exchange and with
the credential lost.
-/

namespace Courier.Auth

open Courier.Http Courier.Store Courier.Time

namespace Manager

variable {m m' : Manager} {e : Event} {out : List Output}

/-! ## Exchanges that count -/

/-- The open exchanges of the current generation. -/
def current (m : Manager) : List Authorization :=
  m.authorizations.filter (·.generation == m.generation)

theorem mem_current {a : Authorization} :
    a ∈ m.current ↔ a ∈ m.authorizations ∧ a.generation = m.generation := by
  simp [current]

/-- The slot is one of an exchange, and none counts. -/
def Orphaned (m : Manager) : Prop :=
  m.slot = .authorizing ∧ m.current = []

instance : Decidable m.Orphaned :=
  inferInstanceAs (Decidable (m.slot = .authorizing ∧ m.current = []))

/-- The event leaves the slot one of an exchange, and ends those that count. -/
def Strands (m : Manager) : Event → Prop
  | .leave caller => m.slot = .authorizing ∧ m.current ≠ [] ∧ ∀ a ∈ m.current, a.caller = caller
  | .reply number reply now =>
    m.slot = .authorizing ∧ ∃ a, m.current = [a] ∧ a.number = number ∧
      (Ruling.ofExchange m.config now reply = .brokenOff ∨
        (∃ f, Ruling.ofExchange m.config now reply = .refused f) ∧ a.previous = .authorizing)
  | _ => False

/-- If there is an exchange that counts, a manager is no orphan. -/
theorem not_orphaned_of_mem {a : Authorization} (ha : a ∈ m.current) : ¬ m.Orphaned := by
  rintro ⟨-, hnone⟩
  rw [hnone] at ha
  cases ha

/-- While no code is exchanged, a manager is no orphan. -/
theorem not_orphaned_of_slot (hs : m.slot ≠ .authorizing) : ¬ m.Orphaned := by
  intro h
  exact hs h.1

/-- A reply that strands an exchange is the reply to it. -/
theorem Strands.exists_authorization {number : Nat} {reply : Reply} {now : Instant}
    (h : m.Strands (.reply number reply now)) : ∃ a ∈ m.authorizations, a.number = number := by
  obtain ⟨-, a, hc, hn, -⟩ := h
  exact ⟨a, (mem_current.mp (hc ▸ List.mem_cons_self)).1, hn⟩

/-- A number tells which exchange it is that counts. -/
theorem Numbered.current_unique (h : m.Numbered) {a : Authorization} (ha : a ∈ m.authorizations)
    {b : Authorization} (hb : b ∈ m.current) (hn : b.number = a.number) : b = a :=
  Stamped.authorization_inj h (mem_current.mp hb).1 ha hn

/-- Of the exchanges that are left over, those count that did. -/
theorem filter_current (m : Manager) (p : Authorization → Bool) :
    (m.authorizations.filter p).filter (·.generation == m.generation) = m.current.filter p := by
  simp only [current, List.filter_filter, Bool.and_comm]

/-- Once an exchange ends none counts, exactly if none counted or it was the only one. -/
theorem Numbered.current_filter_eq_nil_iff (h : m.Numbered) {n : Nat} :
    m.current.filter (·.number != n) = [] ↔
      m.current = [] ∨ ∃ a, m.current = [a] ∧ a.number = n := by
  constructor
  · intro hnil
    have hall : ∀ a ∈ m.current, a.number = n := by simpa using hnil
    cases hc : m.current with
    | nil => exact .inl rfl
    | cons a rest =>
      have ha : a ∈ m.current := hc ▸ List.mem_cons_self
      refine .inr ⟨a, ?_, hall a ha⟩
      rw [← hc]
      apply filter_eq_singleton h.authorizations (mem_current.mp ha).1
      intro b hb
      rw [beq_iff_eq]
      constructor
      · intro hg
        have hb' := mem_current.mpr ⟨hb, hg⟩
        exact h.current_unique (mem_current.mp ha).1 hb' ((hall b hb').trans (hall a ha).symm)
      · rintro rfl
        exact (mem_current.mp ha).2
  · rintro (hc | ⟨a, hc, hn⟩)
    · simp [hc]
    · simp [hc, hn]

/-! ## What a step can do -/

/-- The end of a refresh makes no orphan, and takes none in. -/
theorem RefreshEnd.orphaned_iff {r : Refresh} {u : Ruling} {now : Instant}
    (he : RefreshEnd m r u now m' out) : m'.Orphaned ↔ m.Orphaned := by
  have hslot : m.awaits r = true → ¬ m.Orphaned := by
    intro hw h
    simp [awaits, h.1, Slot.isRefreshing] at hw
  cases he with
  | broken hu hf => exact Iff.rfl
  | late hu hw => exact Iff.rfl
  | granted hu hw => exact iff_of_false (not_orphaned_of_slot (by simp)) (hslot hw)
  | refused hu hw => exact iff_of_false (not_orphaned_of_slot (by simp)) (hslot hw)

/-- What an exchange leaves behind is an orphan if the slot is one of an exchange, and if none
counted or it was the only one. -/
theorem Numbered.orphaned_filter_iff (h : m.Numbered) {n : Nat} {slot : Slot}
    {file : Option Node} :
    Orphaned { m with
      slot
      file
      authorizations := m.authorizations.filter (·.number != n) } ↔
        slot = .authorizing ∧ (m.current = [] ∨ ∃ a, m.current = [a] ∧ a.number = n) := by
  rw [← h.current_filter_eq_nil_iff, ← filter_current]
  exact Iff.rfl

/-- An exchange that does not count is not the only one that does. -/
theorem Numbered.current_eq_nil_iff (h : m.Numbered) {a : Authorization}
    (ha : a ∈ m.authorizations) (hg : m.generation ≠ a.generation) :
    (m.current = [] ∨ ∃ b, m.current = [b] ∧ b.number = a.number) ↔ m.current = [] := by
  refine ⟨?_, .inl⟩
  rintro (hc | ⟨b, hc, hn⟩)
  · exact hc
  · have hb : b ∈ m.current := hc ▸ List.mem_cons_self
    obtain rfl := h.current_unique ha hb hn
    exact absurd (mem_current.mp hb).2.symm hg

/-- The end of an exchange makes an orphan exactly if it strands the exchange. -/
theorem ExchangeEnd.orphaned_iff (h : m.Numbered) {a : Authorization} (ha : a ∈ m.authorizations)
    {reply : Reply} {now : Instant}
    (he : ExchangeEnd m a (.ofExchange m.config now reply) now m' out) :
    m'.Orphaned ↔ m.Orphaned ∨ m.Strands (.reply a.number reply now) := by
  generalize hu : Ruling.ofExchange m.config now reply = u at he
  simp only [Strands, hu]
  cases he with
  | broken hu' =>
    rw [h.orphaned_filter_iff]
    constructor
    · rintro ⟨hs, hc | ⟨b, hc, hn⟩⟩
      · exact .inl ⟨hs, hc⟩
      · exact .inr ⟨hs, b, hc, hn, .inl hu'⟩
    · rintro (⟨hs, hc⟩ | ⟨hs, b, hc, hn, -⟩)
      · exact ⟨hs, .inl hc⟩
      · exact ⟨hs, .inr ⟨b, hc, hn⟩⟩
  | grantedLate hu' hg =>
    rw [h.orphaned_filter_iff, h.current_eq_nil_iff ha hg]
    simp [hu', Orphaned]
  | granted hu' hg =>
    refine iff_of_false (not_orphaned_of_slot (by simp)) ?_
    rintro (horphan | ⟨-, b, -, -, hb | ⟨⟨f, hf⟩, -⟩⟩)
    · exact not_orphaned_of_mem (mem_current.mpr ⟨ha, hg.symm⟩) horphan
    · cases hu'.symm.trans hb
    · cases hu'.symm.trans hf
  | refusedLate hu' hlate =>
    rw [h.orphaned_filter_iff]
    constructor
    · rintro ⟨hs, hc⟩
      have hg : m.generation ≠ a.generation := by
        intro hg
        exact hlate ⟨hg, hs⟩
      exact .inl ⟨hs, (h.current_eq_nil_iff ha hg).mp hc⟩
    · rintro (⟨hs, hc⟩ | ⟨hs, b, hc, hn, -⟩)
      · exact ⟨hs, .inl hc⟩
      · exact ⟨hs, .inr ⟨b, hc, hn⟩⟩
  | refused hu' hg hs =>
    have hmem := mem_current.mpr ⟨ha, hg.symm⟩
    rw [h.orphaned_filter_iff, Slot.settled_eq_authorizing_iff]
    constructor
    · rintro ⟨hprevious, hc | ⟨b, hc, hn⟩⟩
      · exact absurd ⟨hs, hc⟩ (not_orphaned_of_mem hmem)
      · obtain rfl := h.current_unique ha (hc ▸ List.mem_cons_self) hn
        exact .inr ⟨hs, b, hc, rfl, .inr ⟨⟨_, hu'⟩, hprevious⟩⟩
    · rintro (horphan | ⟨-, b, hc, hn, hb | ⟨-, hprevious⟩⟩)
      · exact absurd horphan (not_orphaned_of_mem hmem)
      · cases hu'.symm.trans hb
      · obtain rfl := h.current_unique ha (hc ▸ List.mem_cons_self) hn
        exact ⟨hprevious, .inr ⟨b, hc, rfl⟩⟩

/-- **A step makes an orphan exactly if it strands an exchange.** A manager that is one already
stays so, unless the step supersedes what is under way. -/
theorem Move.orphaned_iff (h : m.Numbered) (hm : Move m e m' out) :
    m'.Orphaned ↔ m.Orphaned ∧ e.supersedes = false ∨ m.Strands e := by
  cases hm with
  | answered hd => simp [Event.supersedes, Strands]
  | joined hd hf => simp [Event.supersedes, Strands, Orphaned, current]
  | stuck hd hf => simp [Event.supersedes, Strands]
  | @started _ _ c hd hf hs =>
    refine iff_of_false (not_orphaned_of_slot (by simp)) ?_
    rintro (⟨horphan, -⟩ | hstrands)
    · rcases hs with hs | hs <;> cases horphan.1.symm.trans hs
    · exact hstrands
  | began =>
    refine iff_of_false ?_ (by simp [Event.supersedes, Strands])
    simp [Orphaned, current]
  | forgotten =>
    refine iff_of_false (not_orphaned_of_slot (by simp)) ?_
    simp [Event.supersedes, Strands]
  | overwritten => simp [Event.supersedes, Strands, Orphaned, current]
  | @left caller =>
    have hc := m.filter_current (·.caller != caller)
    constructor
    · rintro ⟨hs, hnone⟩
      have hall := hc.symm.trans hnone
      by_cases hcurrent : m.current = []
      · exact .inl ⟨⟨hs, hcurrent⟩, rfl⟩
      · exact .inr ⟨hs, hcurrent, by simpa using hall⟩
    · rintro (⟨⟨hs, hnone⟩, -⟩ | ⟨hs, -, hall⟩)
      · exact ⟨hs, hc.trans (by simp [hnone])⟩
      · exact ⟨hs, hc.trans (by simpa using hall)⟩
  | @unasked number reply now hr ha =>
    have hstrands : ¬ m.Strands (.reply number reply now) := by
      intro hstrands
      obtain ⟨a, hmem, hn⟩ := hstrands.exists_authorization
      exact ha a hmem hn
    simp [Event.supersedes, hstrands]
  | @refreshEnds reply now r _ _ hr he =>
    have hstrands : ¬ m.Strands (.reply r.number reply now) := by
      intro hstrands
      obtain ⟨a, hmem, hn⟩ := hstrands.exists_authorization
      exact Stamped.apart h r hr a hmem hn.symm
    rw [he.orphaned_iff]
    simp [Event.supersedes, hstrands]
  | exchangeEnds hr ha he =>
    rw [he.orphaned_iff h ha]
    simp [Event.supersedes]

/-! ## What a run can do -/

/-- A run ends with an orphan exactly if it began with one or strands an exchange, and if nothing
supersedes what is under way from then on. -/
theorem Numbered.orphaned_after_iff (h : m.Numbered) {es : List Event} :
    (m.after es).Orphaned ↔
      (m.Orphaned ∧ ∀ e ∈ es, e.supersedes = false) ∨
        ∃ pre e post, es = pre ++ e :: post ∧ (m.after pre).Strands e ∧
          ∀ e' ∈ post, e'.supersedes = false := by
  induction es generalizing m with
  | nil => simp
  | cons e es ih =>
    have hmove := step_move m e
    rw [after_cons, ih (h.move hmove), hmove.orphaned_iff h]
    constructor
    · rintro (⟨⟨horphan, hsup⟩ | hstrands, hrest⟩ | ⟨pre, e', post, rfl, hstrands, hpost⟩)
      · exact .inl ⟨horphan, List.forall_mem_cons.mpr ⟨hsup, hrest⟩⟩
      · exact .inr ⟨[], e, es, rfl, hstrands, hrest⟩
      · exact .inr ⟨e :: pre, e', post, rfl, hstrands, hpost⟩
    · rintro (⟨horphan, hsup⟩ | ⟨pre, e', post, heq, hstrands, hpost⟩)
      · obtain ⟨hsup, hrest⟩ := List.forall_mem_cons.mp hsup
        exact .inl ⟨.inl ⟨horphan, hsup⟩, hrest⟩
      · cases pre with
        | nil =>
          obtain ⟨rfl, rfl⟩ := List.cons.inj heq
          exact .inl ⟨.inr hstrands, hpost⟩
        | cons f pre =>
          obtain ⟨rfl, rfl⟩ := List.cons.inj heq
          exact .inr ⟨pre, e', post, rfl, hstrands, hpost⟩

/-- **A manager is left waiting for a code to be exchanged if and only if an exchange was
stranded**, and nobody has logged out or brought back a code since. -/
theorem Made.orphaned_iff_strands (h : m.Made) {es : List Event} :
    (m.after es).Orphaned ↔
      ∃ pre e post, es = pre ++ e :: post ∧ (m.after pre).Strands e ∧
        ∀ e' ∈ post, e'.supersedes = false := by
  rw [h.atRest.numbered.orphaned_after_iff]
  apply or_iff_right
  intro horphan
  exact h.atRest.notAuthorizing horphan.1.1

/-- Two codes are brought back. The second one is refused, and then so is the first. -/
def twoRefusals : List Event :=
  [.authorize 0 "v" "c", .authorize 1 "w" "d",
    .reply 1 (.answered ⟨⟨400⟩, [], some []⟩) .epoch,
    .reply 0 (.answered ⟨⟨400⟩, [], some []⟩) .epoch]

/-- After two refusals an exchange has been stranded. -/
theorem twoRefusals_strand :
    (ofCredential {} .spent).Made ∧
      ∃ pre e post, twoRefusals = pre ++ e :: post ∧
        ((ofCredential {} .spent).after pre).Strands e ∧
        ∀ e' ∈ post, e'.supersedes = false := by
  have h : (ofCredential {} .spent).Made := .ofCredential {} .spent
  have horphan : ((ofCredential {} .spent).after twoRefusals).Orphaned := by decide +kernel
  exact ⟨h, h.orphaned_iff_strands.mp horphan⟩

/-- **A slot can be one of an exchange when none is under way.** -/
theorem not_never_orphaned :
    ¬ ∀ m, Made m → ∀ es, (m.after es).slot = .authorizing →
      ∃ a ∈ (m.after es).authorizations, a.generation = (m.after es).generation := by
  intro h
  have hs : ((ofCredential {} .spent).after twoRefusals).slot = .authorizing := by decide +kernel
  have hnone : ((ofCredential {} .spent).after twoRefusals).authorizations = [] := by
    decide +kernel
  obtain ⟨a, ha, -⟩ := h _ (.ofCredential {} .spent) _ hs
  rw [hnone] at ha
  cases ha

end Manager

end Courier.Auth
