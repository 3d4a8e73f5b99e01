import Damaru.Verify.Phases

/-!
# Turns that keep out of each other's way

`linkEmulator` reads a device's state, and only several steps later writes it;
the other two requests that change links take several steps as well. The steps
between are the request's *turn* on the device. Two turns that are open at
once *conflict* when one of them links and they are about one device, or when
one links for the user that the other removes. In a run in which no turn opens
while a conflicting one is open, a device has at most one link in force at
every moment, and once all requests have finished its state agrees with its
links.

`Inv` says what holds in between: a device whose state is behind has a thread
that is about to write it.
-/

namespace Damaru

open Async Table

/-- The label of a thread: what its request has still to do, and how many
steps of the turn at the head of the list it has taken. A removal has one
turn, about all the devices it has found. -/
inductive Ticket where
  | link (u : String) (todo : List String) (taken : Nat)
  | unlink (u : String) (todo : List String) (taken : Nat)
  | remove (u : String) (found : Option (List String))

namespace LinkRequest

/-- The label of a request that has not started. -/
def ticket : LinkRequest → Ticket
  | link u ds => .link u ds 0
  | unlink u ds => .unlink u ds 0
  | remove u => .remove u none

end LinkRequest

namespace Ticket

/-- The label after a step in `s`. A turn of linking is five steps, the check
being the first; one of unlinking is four, or none if there is no link; a
removal begins with finding the devices that are linked to the user. -/
def next (s : Server) : Ticket → Ticket
  | link u [] n => link u [] n
  | link u (d :: ds) n => if n = 4 then link u ds 0 else link u (d :: ds) (n + 1)
  | unlink u [] n => unlink u [] n
  | unlink u (d :: ds) n =>
    if n = 3 ∨ (n = 0 ∧ ∀ l ∈ s.tables.active d, l.user ≠ some u) then unlink u ds 0
    else unlink u (d :: ds) (n + 1)
  | remove u none =>
    remove u (some ((s.tables.userEmulators.filter fun l => l.user = some u && l.active).filterMap
      UserEmulators.device))
  | remove u (some ds) => remove u (some ds)

theorem next_link (s : Server) (u d : String) (ds : List String) (n : Nat) :
    next s (link u (d :: ds) n) = if n = 4 then link u ds 0 else link u (d :: ds) (n + 1) := rfl

theorem next_unlink (s : Server) (u d : String) (ds : List String) (n : Nat) :
    next s (unlink u (d :: ds) n) =
      if n = 3 ∨ (n = 0 ∧ ∀ l ∈ s.tables.active d, l.user ≠ some u) then unlink u ds 0
      else unlink u (d :: ds) (n + 1) := rfl

/-- The devices of the turn that is open. -/
def turn : Ticket → Option (List String)
  | link _ (d :: _) (_ + 1) => some [d]
  | unlink _ (d :: _) (_ + 1) => some [d]
  | remove _ found => found
  | _ => none

def touches (k : Ticket) (d : String) : Prop := ∃ ds, k.turn = some ds ∧ d ∈ ds

def isLink : Ticket → Prop
  | link _ _ _ => True
  | _ => False

/-- The one links for the user whom the other removes. -/
def meets : Ticket → Ticket → Prop
  | link u _ _, remove v _ => u = v
  | remove v _, link u _ _ => u = v
  | _, _ => False

theorem meets_symm {k j : Ticket} (h : k.meets j) : j.meets k := by
  cases k <;> cases j <;> exact h

/-- Two turns that must not be open together. -/
structure Conflict (k j : Ticket) : Prop where
  left : k.turn.isSome
  right : j.turn.isSome
  links : k.isLink ∨ j.isLink
  about : (∃ d, k.touches d ∧ j.touches d) ∨ k.meets j

theorem Conflict.symm {k j : Ticket} (h : Conflict k j) : Conflict j k :=
  ⟨h.right, h.left, h.links.symm, h.about.imp (fun ⟨d, hk, hj⟩ => ⟨d, hj, hk⟩) meets_symm⟩

/-- The label under which a thread takes a step: the turn that is open, or the
one that the step opens. -/
def during (k : Ticket) (s : Server) : Ticket := if k.turn.isSome then k else k.next s

theorem Conflict.congr {k k' j : Ticket} (h : Conflict k' j) (ht : k.turn = k'.turn)
    (hl : k.isLink = k'.isLink) (hm : k.meets j = k'.meets j) : Conflict k j := by
  refine ⟨ht ▸ h.left, h.right, hl ▸ h.links, ?_⟩
  unfold touches at *
  rw [hm]
  rcases h.about with ⟨d, hd, hj⟩ | h'
  · exact .inl ⟨d, by unfold touches at *; rw [ht]; exact hd, hj⟩
  · exact .inr h'

/-- A step that leaves a turn open leaves that turn. -/
theorem during_conflict {k j : Ticket} {s : Server} (h : (k.next s).Conflict j) :
    (k.during s).Conflict j := by
  unfold during
  split
  · rename_i hopen
    cases k with
    | link u todo n =>
      match todo, n with
      | [], _ => cases hopen
      | _ :: _, 0 => cases hopen
      | d :: ds, n + 1 =>
        rw [next_link] at h
        split at h
        · exact absurd h.left (by cases ds <;> simp [turn])
        · exact h.congr rfl rfl (by cases j <;> rfl)
    | unlink u todo n =>
      match todo, n with
      | [], _ => cases hopen
      | _ :: _, 0 => cases hopen
      | d :: ds, n + 1 =>
        rw [next_unlink] at h
        split at h
        · exact absurd h.left (by cases ds <;> simp [turn])
        · exact h.congr rfl rfl (by cases j <;> rfl)
    | remove u found =>
      cases found with
      | none => cases hopen
      | some ds => exact h
  · exact h

end Ticket

/-- A turn opens only while no turn that conflicts with it is open. -/
def turnsApart (others : Pool Ticket Ext Server Rejection) (k : Ticket) (s : Server) : Prop :=
  k.turn = none → ∀ o ∈ others, (∃ u n, o.2 = .await u n) → ¬ (k.next s).Conflict o.1

/-- The pool of the requests, none of which has started. -/
def startPool (requests : List LinkRequest) : Pool Ticket Ext Server Rejection :=
  requests.flatMap fun r => Pool.threads r.ticket r.prog.toTask

namespace Phase

/-- A thread with its label. -/
abbrev Thread := Ticket × Phase

/-- The label of a thread says where it stands. -/
def Fits (k : Ticket) : Phase → Prop
  | linkCheck u d ds => k = .link u (d :: ds) 0
  | linkInsert u d ds => k = .link u (d :: ds) 1
  | linkRoot u d ds _ => k = .link u (d :: ds) 2
  | linkAssign u d ds _ _ => k = .link u (d :: ds) 3
  | linkState u d ds => k = .link u (d :: ds) 4
  | unlinkFind u d ds => k = .unlink u (d :: ds) 0
  | unlinkMark u d ds _ => k = .unlink u (d :: ds) 1
  | unlinkAssign u d ds _ => k = .unlink u (d :: ds) 2
  | unlinkState u d ds => k = .unlink u (d :: ds) 3
  | removeFind u => k = .remove u none
  | removeLog u devices => ∃ fp, k = .remove u (some fp) ∧ ∀ d, some d ∈ devices → d ∈ fp
  | removeDelete u => u ≠ "" ∧ ∃ fp, k = .remove u (some fp)
  | makeAvailable d => ∃ u fp, k = .remove u (some fp) ∧ d ∈ fp
  | finished _ => True

/-- The thread is about to make the device AVAILABLE. -/
def Frees : Phase → String → Prop
  | unlinkAssign _ d _ _, d' => d' = d
  | unlinkState _ d _, d' => d' = d
  | makeAvailable d, d' => d' = d
  | _, _ => False

/-- The thread is about to make the device REGISTERED, or to end its link. -/
def Takes (k : Ticket) : Phase → String → UserEmulators → Prop
  | linkRoot _ d _ _, d', _ => d' = d
  | linkAssign _ d _ _ _, d', _ => d' = d
  | linkState _ d _, d', _ => d' = d
  | removeDelete u, d', l => l.user = some u ∧ k.touches d'
  | _, _, _ => False

/-- The device is AVAILABLE, or about to be. -/
def Freed (ths : List Thread) (s : Server) (d : String) : Prop :=
  ∀ e ∈ s.tables.emulators, e.device_id = d → e.state = .AVAILABLE ∨ ∃ th ∈ ths, Frees th.2 d

/-- The device is about to be REGISTERED, or its link about to end. -/
def Taken (ths : List Thread) (d : String) (l : UserEmulators) : Prop :=
  ∃ th ∈ ths, Takes th.1 th.2 d l

/-- What a thread relies on where it stands. -/
def Holds (ths : List Thread) (s : Server) (k : Ticket) : Phase → Prop
  | linkInsert _ d _ => s.tables.active d = []
  | linkRoot _ d _ _ => s.tables.active d ≠ []
  | linkAssign _ d _ _ _ => s.tables.active d ≠ []
  | linkState _ d _ => s.tables.active d ≠ []
  | unlinkMark _ d _ l => (∀ a ∈ s.tables.active d, a.id = l) ∧ l ∈ s.used ∧
      ∀ r ∈ s.tables.userEmulators, r.id = l → r.device = some d
  | unlinkAssign _ d _ _ => s.tables.active d = []
  | unlinkState _ d _ => s.tables.active d = []
  | removeLog u devices =>
      (∀ l ∈ s.tables.userEmulators, l.active = true → l.user = some u → l.device ∈ devices) ∧
        ∀ d, some d ∈ devices → ∀ l ∈ s.tables.active d, l.user = some u
  | removeDelete u => ∀ l ∈ s.tables.userEmulators, l.active = true → l.user = some u →
      ∃ d, l.device = some d ∧ k.touches d ∧ Freed ths s d
  | makeAvailable d => ∀ l ∈ s.tables.active d, Taken ths d l
  | _ => True

/-- The thread has a turn open. -/
def InTurn (th : Thread) : Prop := th.1.turn.isSome ∧ ∀ e, th.2 ≠ finished e

def Compatible (a b : Thread) : Prop := InTurn a → InTurn b → ¬ a.1.Conflict b.1

theorem Compatible.symm {a b : Thread} (h : Compatible a b) : Compatible b a :=
  fun hb ha hc => h ha hb hc.symm

/-- What holds at every moment of a run in which turns keep apart. -/
structure Inv (ths : List Thread) (s : Server) : Prop where
  fits : ∀ th ∈ ths, Fits th.1 th.2
  apart : ths.Pairwise Compatible
  links : ∀ d, (s.tables.active d).length ≤ 1
  states : ∀ e ∈ s.tables.emulators, e.state = .REGISTERED ∨ e.state = .AVAILABLE
  free : ∀ d, s.tables.active d = [] → Freed ths s d
  taken : ∀ e ∈ s.tables.emulators, e.state = .AVAILABLE →
    ∀ l ∈ s.tables.active e.device_id, Taken ths e.device_id l
  holds : ∀ th ∈ ths, Holds ths s th.1 th.2

theorem Freed.perm {ths ths' : List Thread} (hp : ths.Perm ths') {s : Server} {d : String}
    (h : Freed ths s d) : Freed ths' s d :=
  fun e he hd => (h e he hd).imp_right fun ⟨th, hth, hf⟩ => ⟨th, hp.mem_iff.1 hth, hf⟩

theorem Taken.perm {ths ths' : List Thread} (hp : ths.Perm ths') {d : String} {l : UserEmulators}
    (h : Taken ths d l) : Taken ths' d l :=
  h.imp fun _ hth => ⟨hp.mem_iff.1 hth.1, hth.2⟩

theorem Holds.perm {ths ths' : List Thread} (hp : ths.Perm ths') {s : Server} {k : Ticket} {q : Phase}
    (h : Holds ths s k q) : Holds ths' s k q := by
  cases q with
  | removeDelete u =>
    intro l hl ha hu
    obtain ⟨d, hd, ht, hf⟩ := h l hl ha hu
    exact ⟨d, hd, ht, hf.perm hp⟩
  | makeAvailable d => exact fun l hl => (h l hl).perm hp
  | _ => exact h

/-- The order of the threads does not matter. -/
theorem Inv.perm {ths ths' : List Thread} (hp : ths.Perm ths') {s : Server} (h : Inv ths s) :
    Inv ths' s where
  fits th hth := h.fits th (hp.mem_iff.2 hth)
  apart := (hp.pairwise_iff Compatible.symm).1 h.apart
  links := h.links
  states := h.states
  free d hd := (h.free d hd).perm hp
  taken e he hst l hl := (h.taken e he hst l hl).perm hp
  holds th hth := (h.holds th (hp.mem_iff.2 hth)).perm hp

theorem Inv.eq_of_active {ths : List Thread} {s : Server} (h : Inv ths s) {d : String}
    {a b : UserEmulators} (ha : a ∈ s.tables.active d) (hb : b ∈ s.tables.active d) : a = b := by
  have hlen := h.links d
  match hact : s.tables.active d, hlen with
  | [c], _ =>
    rw [hact, List.mem_singleton] at ha hb
    rw [ha, hb]
  | [], _ => rw [hact] at ha; cases ha

/-! ## Threads in a turn -/

theorem Takes.inTurn {k : Ticket} {q : Phase} {d : String} {l : UserEmulators} (hfit : Fits k q)
    (h : Takes k q d l) : InTurn (k, q) ∧ k.touches d := by
  cases q with
  | linkRoot u d' ds l' =>
    have hk : k = .link u (d' :: ds) 2 := hfit
    have heq : d = d' := h
    subst hk heq
    exact ⟨⟨rfl, by simp⟩, [d], rfl, List.mem_singleton.2 rfl⟩
  | linkAssign u d' ds l' a =>
    have hk : k = .link u (d' :: ds) 3 := hfit
    have heq : d = d' := h
    subst hk heq
    exact ⟨⟨rfl, by simp⟩, [d], rfl, List.mem_singleton.2 rfl⟩
  | linkState u d' ds =>
    have hk : k = .link u (d' :: ds) 4 := hfit
    have heq : d = d' := h
    subst hk heq
    exact ⟨⟨rfl, by simp⟩, [d], rfl, List.mem_singleton.2 rfl⟩
  | removeDelete u =>
    obtain ⟨-, fp, rfl⟩ := hfit
    exact ⟨⟨rfl, by simp⟩, h.2⟩
  | _ => exact h.elim

theorem Frees.inTurn {k : Ticket} {q : Phase} {d : String} (hfit : Fits k q) (h : Frees q d) :
    InTurn (k, q) := by
  cases q with
  | unlinkAssign u d' ds l =>
    have hk : k = .unlink u (d' :: ds) 2 := hfit
    subst hk
    exact ⟨rfl, by simp⟩
  | unlinkState u d' ds =>
    have hk : k = .unlink u (d' :: ds) 3 := hfit
    subst hk
    exact ⟨rfl, by simp⟩
  | makeAvailable d' =>
    obtain ⟨_, _, rfl, -⟩ := hfit
    exact ⟨rfl, by simp⟩
  | _ => exact h.elim

/-- A thread that relies on something has a turn open. -/
theorem Holds.of_not_inTurn {ths : List Thread} {s : Server} {k : Ticket} {q : Phase}
    (hfit : Fits k q) (h : ¬ InTurn (k, q)) : Holds ths s k q := by
  have hopen : k.turn.isSome → (∀ e, q ≠ finished e) → False := fun hk hq => h ⟨hk, hq⟩
  cases q with
  | linkInsert u d ds =>
    have hk : k = .link u (d :: ds) 1 := hfit
    exact (hopen (hk ▸ rfl) (by simp)).elim
  | linkRoot u d ds l =>
    have hk : k = .link u (d :: ds) 2 := hfit
    exact (hopen (hk ▸ rfl) (by simp)).elim
  | linkAssign u d ds l a =>
    have hk : k = .link u (d :: ds) 3 := hfit
    exact (hopen (hk ▸ rfl) (by simp)).elim
  | linkState u d ds =>
    have hk : k = .link u (d :: ds) 4 := hfit
    exact (hopen (hk ▸ rfl) (by simp)).elim
  | unlinkMark u d ds l =>
    have hk : k = .unlink u (d :: ds) 1 := hfit
    exact (hopen (hk ▸ rfl) (by simp)).elim
  | unlinkAssign u d ds l =>
    have hk : k = .unlink u (d :: ds) 2 := hfit
    exact (hopen (hk ▸ rfl) (by simp)).elim
  | unlinkState u d ds =>
    have hk : k = .unlink u (d :: ds) 3 := hfit
    exact (hopen (hk ▸ rfl) (by simp)).elim
  | removeLog u devices =>
    obtain ⟨_, hk, -⟩ := hfit
    exact (hopen (hk ▸ rfl) (by simp)).elim
  | removeDelete u =>
    obtain ⟨-, _, hk⟩ := hfit
    exact (hopen (hk ▸ rfl) (by simp)).elim
  | makeAvailable d =>
    obtain ⟨_, _, hk, -⟩ := hfit
    exact (hopen (hk ▸ rfl) (by simp)).elim
  | linkCheck u d ds => trivial
  | unlinkFind u d ds => trivial
  | removeFind u => trivial
  | finished e => trivial

/-- The phases at which a thread has a turn open that links the device. -/
theorem touches_of_link {k : Ticket} {u d : String} {ds : List String} {n : Nat}
    (h : k = .link u (d :: ds) (n + 1)) : k.touches d ∧ k.isLink := by
  subst h
  exact ⟨⟨[d], rfl, List.mem_singleton.2 rfl⟩, trivial⟩

theorem touches_of_unlink {k : Ticket} {u d : String} {ds : List String} {n : Nat}
    (h : k = .unlink u (d :: ds) (n + 1)) : k.touches d := by
  subst h
  exact ⟨[d], rfl, List.mem_singleton.2 rfl⟩

end Phase

end Damaru
