import Courier.Proofs.Auth.Course
import Courier.Proofs.Auth.Renewal
import Courier.Proofs.Auth.Stored

/-!
# The file restores the credential

A manager that was loaded from a file keeps there what it has: whenever another one is loaded from
the same place, it finds the credential that is in the slot, or the API key, or nothing
(**`restored`**). What it finds while a code is exchanged is what stood in the slot before, since
that may have to be put back, and once a credential is given up because it could not be refreshed
nothing is asked of the file (`Backed`).

That needs nobody else to write to the file. It also needs that the exchange which is taken for the
current one is the one that left the mark in the slot, and not one that has been open for 2⁶⁴
generations, hence the new generations (`Renews`); a run with fewer generations than that has no
others (`Made.renews`).
-/

namespace Courier.Auth

open Courier.Http Courier.Json Courier.Store Courier.Text Courier.Time

/-! ## What a file gives back -/

namespace Manager

/-- The manager has got what is in the slot `s`; a credential that is being refreshed there is just
a credential here. -/
structure Restores (m : Manager) (s : Slot) : Prop where
  /-- It has got the same credential. -/
  credential : ∀ c, s.credential? = some c → m.slot = .authenticated c
  /-- It has got the same API key. -/
  apiKey : ∀ key, s = .apiKey key → m.slot = .apiKey key
  /-- If there is nothing it has got nothing. -/
  nothing : s = .unauthenticated → m.slot = .unauthenticated

variable {config : Config} {n : Node} {m m' : Manager} {s : Slot}

/-- Of two slots with one credential a manager has got what is in both, if neither holds anything
else. -/
theorem Restores.of_credential (h : m.Restores s) {s' : Slot}
    (hc : ∀ c, s'.credential? = some c → s.credential? = some c) (hkey : ∀ key, s' ≠ .apiKey key)
    (hnone : s' ≠ .unauthenticated) : m.Restores s' := by
  constructor
  case credential =>
    intro c hs
    exact h.credential c (hc c hs)
  case apiKey =>
    intro key hs
    exact absurd hs (hkey key)
  case nothing =>
    intro hs
    exact absurd hs hnone

/-- Unless a credential is being refreshed, a manager has got what it has. -/
theorem restores_slot (h : m.slot.isRefreshing = false) : m.Restores m.slot := by
  constructor
  case credential =>
    intro c hc
    cases hs : m.slot with
    | authenticated c' => rw [hs] at hc; rw [Option.some.inj hc]
    | refreshing c' => rw [hs] at h; cases h
    | _ => rw [hs] at hc; cases hc
  case apiKey => exact fun _ hs => hs
  case nothing => exact fun hs => hs

/-- A manager that is loaded from `n` has got what is in the slot `s`. -/
def KeepsSlot (config : Config) (n : Node) (s : Slot) : Prop :=
  ∃ m, Manager.load config n = .ok m ∧ m.Restores s

/-- Settling a slot does not change what is kept. -/
theorem KeepsSlot.settled (h : KeepsSlot config n s) : KeepsSlot config n s.settled := by
  obtain ⟨m, hload, hm⟩ := h
  refine ⟨m, hload, ?_⟩
  cases s with
  | refreshing c =>
    apply hm.of_credential
    · exact fun _ hc => hc
    · simp [Slot.settled]
    · simp [Slot.settled]
  | _ => exact hm

/-- That a credential is being refreshed does not change where it is kept. -/
theorem KeepsSlot.refreshing (h : KeepsSlot config n s) {c : Credential}
    (hs : s.credential? = some c) : KeepsSlot config n (.refreshing c) := by
  obtain ⟨m, hload, hm⟩ := h
  exact ⟨m, hload, hm.of_credential (fun _ hc => hs.trans hc) (by simp) (by simp)⟩

/-- While a code is exchanged, and once a credential is given up, nothing has to be kept. -/
theorem KeepsSlot.passing (h : KeepsSlot config n s) {s' : Slot}
    (hs : s' = .authorizing ∨ s' = .expired) : KeepsSlot config n s' := by
  obtain ⟨m, hload, hm⟩ := h
  refine ⟨m, hload, ?_⟩
  rcases hs with rfl | rfl <;> apply hm.of_credential <;> simp [Slot.credential?]

/-- What a manager can be loaded from is no directory. -/
theorem KeepsSlot.ne_directory (h : KeepsSlot config n s) : n ≠ .directory := by
  rintro rfl
  obtain ⟨m, hload, -⟩ := h
  cases hload

/-- A credential that has been written is kept. -/
theorem keepsSlot_keepCredential (hn : n ≠ .directory) (c : Credential) (now : Instant) :
    KeepsSlot config (keepCredential c now n) (.authenticated c) := by
  let stored : Stored := { tokens := some c, lastRefresh := some now }
  have hwritten : writeStored stored n = .ok (keepCredential c now n) := by
    cases n with
    | directory => exact absurd rfl hn
    | absent => rfl
    | file content => rfl
  have hread := readStored_of_writeStored hwritten
  have hload : Manager.load config (keepCredential c now n) =
      .ok { config, file := some (keepCredential c now n), slot := .authenticated c } := by
    simp only [load, hread]
    rfl
  exact ⟨_, hload, restores_slot rfl⟩

/-- Where the file has been removed nothing is kept. -/
theorem keepsSlot_clearFile (hn : n ≠ .directory) :
    KeepsSlot config (clearFile n) .unauthenticated := by
  have habsent : clearFile n = .absent := by
    cases n with
    | directory => exact absurd rfl hn
    | absent => rfl
    | file content => rfl
  rw [habsent]
  exact ⟨_, rfl, restores_slot rfl⟩

/-! ## Where the slot is kept -/

variable {e : Event} {out : List Output}

/-- What is in the slot is kept in the file, and while a code is exchanged so is what may be put
back there. -/
structure Backed (m : Manager) (n : Node) : Prop where
  file : m.file = some n
  slot : KeepsSlot m.config n m.slot
  previous : m.slot = .authorizing → ∀ a ∈ m.authorizations, a.generation = m.generation →
    KeepsSlot m.config n a.previous

/-- A manager that has just been loaded keeps what it has. -/
theorem backed_of_load (h : Manager.load config n = .ok m) : m.Backed n := by
  have hrest := (Made.load h).atRest
  have hload := h
  obtain ⟨slot, rfl, -⟩ := load_eq_ok h
  refine ⟨rfl, ⟨_, hload, restores_slot hrest.notRefreshing⟩, ?_⟩
  intro _ a ha
  cases ha

/-- Away from an exchange there is only the slot to be kept. -/
theorem Backed.of_slot (hfile : m.file = some n) (hslot : KeepsSlot m.config n m.slot)
    (hs : m.slot ≠ .authorizing) : m.Backed n :=
  ⟨hfile, hslot, fun h => absurd h hs⟩

/-- Taking exchanges off the list leaves the rest as it is. -/
theorem Backed.filter_authorizations (h : m.Backed n) (p : Authorization → Bool)
    (ws : List Waiter) :
    Backed { m with authorizations := m.authorizations.filter p, waiters := ws } n := by
  refine ⟨h.file, h.slot, ?_⟩
  intro hs a ha
  exact h.previous hs a (List.mem_filter.mp ha).1

/-- A credential that is taken over is kept. -/
theorem Backed.granted (h : m.Backed n) {c : Credential} {now : Instant}
    (hfile : m'.file = m.file.map (keepCredential c now)) (hs : m'.slot = .authenticated c) :
    ∃ n', m'.Backed n' := by
  refine ⟨keepCredential c now n, .of_slot ?_ ?_ ?_⟩
  · rw [hfile, h.file]
    rfl
  · rw [hs]
    exact keepsSlot_keepCredential h.slot.ne_directory c now
  · rw [hs]
    nofun

/-- The end of a refresh leaves the slot kept. -/
theorem Backed.refreshEnd (h : m.Backed n) {r : Refresh} {u : Ruling} {now : Instant}
    (he : RefreshEnd m r u now m' out) : ∃ n', m'.Backed n' := by
  cases he with
  | broken hu hf => exact ⟨n, h.file, h.slot, h.previous⟩
  | late hu hw => exact ⟨n, h.file, h.slot, h.previous⟩
  | granted hu hw => exact h.granted rfl rfl
  | refused hu hw => exact ⟨n, .of_slot h.file (h.slot.passing (.inr rfl)) nofun⟩

/-- The end of an exchange leaves the slot kept. -/
theorem Backed.exchangeEnd (h : m.Backed n) {a : Authorization} (ha : a ∈ m.authorizations)
    {u : Ruling} {now : Instant} (he : ExchangeEnd m a u now m' out) : ∃ n', m'.Backed n' := by
  cases he with
  | broken hu => exact ⟨n, h.filter_authorizations _ _⟩
  | grantedLate hu hg => exact ⟨n, h.filter_authorizations _ _⟩
  | refusedLate hu hg => exact ⟨n, h.filter_authorizations _ _⟩
  | granted hu hg => exact h.granted rfl rfl
  | refused hu hg hs =>
    refine ⟨n, h.file, (h.previous hs a ha hg.symm).settled, ?_⟩
    intro _ b hb
    exact h.previous hs b (List.mem_filter.mp hb).1

/-- **A step leaves the slot kept**, unless somebody else writes to the file. -/
theorem Backed.move (h : m.Backed n) (hm : Move m e m' out) (hno : ∀ n, e ≠ .overwrite n)
    (hnew : m'.generation ≠ m.generation → m.Unclaimed m'.generation) : ∃ n', m'.Backed n' := by
  cases hm with
  | answered hd => exact ⟨n, h⟩
  | stuck hd hf => exact ⟨n, h⟩
  | unasked hr ha => exact ⟨n, h⟩
  | joined hd hf => exact ⟨n, h.file, h.slot, h.previous⟩
  | @started _ _ c hd hf hs =>
    have hc : m.slot.credential? = some c := by
      rcases hs with hs | hs <;> rw [hs] <;> rfl
    exact ⟨n, .of_slot h.file (h.slot.refreshing hc) nofun⟩
  | began =>
    obtain ⟨-, hothers⟩ := hnew (succ_ne _)
    refine ⟨n, h.file, h.slot.passing (.inl rfl), ?_⟩
    intro _ a ha hg
    rcases List.mem_append.mp ha with ha | ha
    · exact absurd hg (hothers a ha)
    · rw [List.mem_singleton.mp ha]
      exact h.slot
  | forgotten =>
    refine ⟨clearFile n, .of_slot ?_ (keepsSlot_clearFile h.slot.ne_directory) nofun⟩
    show m.file.map clearFile = _
    rw [h.file]
    rfl
  | left => exact ⟨n, h.filter_authorizations _ _⟩
  | overwritten => exact absurd rfl (hno _)
  | refreshEnds hr he => exact h.refreshEnd he
  | exchangeEnds hr ha he => exact h.exchangeEnd ha he

/-- **A run leaves the slot kept**, unless somebody else writes to the file. -/
theorem Backed.after (h : m.Backed n) {es : List Event} (hno : ∀ e ∈ es, ∀ n, e ≠ .overwrite n)
    (hrenews : m.Renews es) : ∃ n', (m.after es).Backed n' := by
  induction es generalizing m n with
  | nil => exact ⟨n, h⟩
  | cons e es ih =>
    obtain ⟨he, hes⟩ := List.forall_mem_cons.mp hno
    obtain ⟨hnew, hrest⟩ := hrenews
    obtain ⟨n', hnext⟩ := h.move (step_move m e) he hnew
    exact ih hnext hes hrest

/-! ## Loading again -/

/-- **Whenever a manager is loaded from where another one keeps its credential, it has got what that
one has**, if nobody else has written there. -/
theorem restored (h : Manager.load config n = .ok m) {es : List Event}
    (hno : ∀ e ∈ es, ∀ n, e ≠ .overwrite n) (hrenews : m.Renews es) :
    ∃ n', (m.after es).file = some n' ∧
      ∃ m', Manager.load config n' = .ok m' ∧ m'.Restores (m.after es).slot := by
  obtain ⟨n', hlast⟩ := (backed_of_load h).after hno hrenews
  have hconfig : (m.after es).config = config := by
    obtain ⟨slot, rfl, -⟩ := load_eq_ok h
    exact config_after _ es
  have hslot := hlast.slot
  rw [hconfig] at hslot
  exact ⟨n', hlast.file, hslot⟩

/-- A code is exchanged, and then the credential is being refreshed. -/
def exchanged : List Event :=
  [.authorize 0 "v" "c",
    .reply 0 (successWith
      "\x7b\"access_token\":\"b\",\"refresh_token\":\"s\",\"expires_in\":60\x7d") .epoch,
    .demand 1 (.valid .epoch)]

/-- The credential that came of a code is found again where there has been no file. -/
theorem exchanged_restored :
    let m : Manager := { config := {}, file := some .absent, slot := .unauthenticated }
    Manager.load {} .absent = .ok m ∧ (∀ e ∈ exchanged, ∀ n, e ≠ .overwrite n) ∧
      m.Renews exchanged ∧ (m.after exchanged).slot.isRefreshing = true ∧
      ∃ n', (m.after exchanged).file = some n' ∧
        ∃ m', Manager.load {} n' = .ok m' ∧ m'.Restores (m.after exchanged).slot := by
  intro m
  have hload : Manager.load {} .absent = .ok m := rfl
  have hno : ∀ e ∈ exchanged, ∀ n, e ≠ .overwrite n := by simp [exchanged]
  have hrenews : m.Renews exchanged := (Made.load hload).renews (by decide +kernel)
  refine ⟨hload, hno, hrenews, ?_, restored hload hno hrenews⟩
  decide +kernel

end Manager

end Courier.Auth
