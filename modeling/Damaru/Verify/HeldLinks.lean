import Damaru.Verify.LinkInvariant
import Damaru.Verify.AssignmentSpecs

/-!
# Links of users and devices

In every state that operations lead to from a database without devices, a link
has a user and a device, and so the link in force on a device names its
holder.
-/

namespace Damaru

open Async Table

namespace Tables

/-- Every link has a user and a device. -/
def LinksWhole (t : Tables) : Prop := ∀ l ∈ t.userEmulators, l.user ≠ none ∧ l.device ≠ none

theorem LinksWhole.of_subset {t t' : Tables} (h : t.LinksWhole)
    (hsub : ∀ l' ∈ t'.userEmulators, ∃ l ∈ t.userEmulators, l'.user = l.user ∧ l'.device = l.device) :
    t'.LinksWhole := by
  intro l' hl'
  obtain ⟨l, hl, huser, hdevice⟩ := hsub l' hl'
  rw [huser, hdevice]
  exact h l hl

theorem LinksWhole.append {t t' : Tables} (h : t.LinksWhole) {l : UserEmulators}
    (hl : l.user ≠ none ∧ l.device ≠ none) (heq : t'.userEmulators = t.userEmulators ++ [l]) :
    t'.LinksWhole := by
  intro l' hl'
  rw [heq] at hl'
  rcases List.mem_append.1 hl' with hl' | hl'
  · exact h l' hl'
  · rw [List.mem_singleton.1 hl']
    exact hl

end Tables

/-- Only a new link is a link that was not there before, with another user or
device. -/
theorem Write.linksWhole {t t' : Tables} {k : Kind} (hw : Write t k t') (hk : k ≠ .newLink)
    (h : t.LinksWhole) : t'.LinksWhole := by
  have hset : ∀ (p : UserEmulators → Bool) (f : UserEmulators → UserEmulators),
      (∀ l, (f l).user = l.user ∧ (f l).device = l.device) →
      t'.userEmulators = updateWhere p f t.userEmulators → t'.LinksWhole := by
    intro p f hf heq
    refine h.of_subset fun l' hl' => ?_
    rw [heq] at hl'
    rcases mem_updateWhere.1 hl' with ⟨l, hl, -, rfl⟩ | ⟨hl, -⟩
    · exact ⟨l, hl, hf l⟩
    · exact ⟨l', hl, rfl, rfl⟩
  have hdelete : ∀ t₀ : Tables, t₀.userEmulators = t.userEmulators → t' = t₀.cascade →
      t'.LinksWhole := by
    intro t₀ hlinks heq
    refine h.of_subset fun l' hl' => ⟨l', ?_, rfl, rfl⟩
    rw [heq] at hl'
    exact hlinks ▸ t₀.cascade_subset.2.2.1 hl'
  cases hw with
  | newLink l => exact absurd rfl hk
  | expiry p date => exact hset p (fun l => { l with expires_at := date }) (fun _ => ⟨rfl, rfl⟩) rfl
  | endLink p date => exact hset p (fun l => { l with unlinked_at := some date }) (fun _ => ⟨rfl, rfl⟩) rfl
  | deleteEmulator p => exact hdelete { t with emulators := t.emulators.filter p } rfl rfl
  | deleteAccount p => exact hdelete { t with accounts := t.accounts.filter p } rfl rfl
  | deleteUser p => exact hdelete { t with users := t.users.filter p } rfl rfl
  | _ => exact h

/-- Statements of other kinds keep the links whole. -/
theorem each_linksWhole {α : Type} {p : Svc α} (ks : List Kind) (h : p.Each (Writes ks))
    (hks : .newLink ∉ ks) : p.Each fun s s' => s.tables.LinksWhole → s'.tables.LinksWhole := by
  refine h.mono fun s s' hw hs => ?_
  rcases hw.tables with hsame | ⟨k, hk, hw⟩
  · rw [hsame]
    exact hs
  · exact hw.linksWhole (fun heq => hks (heq ▸ hk)) hs

/-- A link is made of the user and the device of the request. -/
theorem EmulatorService.linkDevice_linksWhole (u d : String) {s : Server} (hs : s.tables.LinksWhole) :
    (linkDevice (some (.str u)) (some (.str d))).Post s fun _ s' => s'.tables.LinksWhole := by
  unfold linkDevice findEmulatorByDeviceId
  refine Repository.post_findRow_bind (fun _ _ _ => .throw hs) fun _ => ?_
  refine Repository.post_insert_bind (fun x l hl hi => ?_) fun _ _ _ => hs
  have hwhole : l.user ≠ none ∧ l.device ≠ none := by
    cases hl
    simp
  have hs₁ : ({ s.tables with userEmulators := s.tables.userEmulators ++ [l] } : Tables).LinksWhole :=
    hs.append hwhole rfl
  unfold AccountsService.findRootAccount
  refine Repository.post_findRow_bind (fun a ha hp => ?_) fun _ => .throw hs₁
  refine Repository.post_insert_bind (fun y p hp' hi' => ?_) fun _ _ _ => hs₁
  have hstate : (setState (some (.str d)) .REGISTERED).Each
      fun s s' => s.tables.LinksWhole → s'.tables.LinksWhole :=
    each_linksWhole [.state] (each_setState List.mem_cons_self) (by simp)
  exact (hstate.post (fun _ => id) fun _ _ _ h h' ha => h' (h ha)).mono fun _ _ h => h hs₁

namespace Operation

/-- The step lemma. -/
theorem Completes.linksWhole {op : Operation} {s s' : Server} (h : Completes s op s')
    (hs : s.tables.LinksWhole) : s'.tables.LinksWhole := by
  have hkinds : .newLink ∉ op.kinds → s'.tables.LinksWhole := fun hk =>
    preserves (I := Tables.LinksWhole)
      (fun k hmem t t' _ _ hw ht => hw.linksWhole (fun heq => hk (heq ▸ hmem)) ht) h.2 hs
  cases op with
  | link r =>
    cases r with
    | link u ds =>
      refine Prog.Post.settles (I := fun s' : Server => s'.tables.LinksWhole) ?_
        (EmulatorService.forkFree_linkEmulator (LinkRequest.linkDto u ds)) h.2
      refine Prog.Post.mono ?_ fun _ _ h _ => h
      refine forOf_post (I := fun s' : Server => s'.tables.LinksWhole)
        (fun items hitems d hd s₁ hs₁ => ?_) hs
      cases hitems
      obtain ⟨d, -, rfl⟩ := List.mem_map.1 hd
      exact EmulatorService.linkDevice_linksWhole u d hs₁
    | unlink u ds => exact hkinds (by simp [kinds])
    | remove u => exact hkinds (by simp [kinds])
  | _ => exact hkinds (by simp [kinds])

/-- What holds of the links after a run. -/
structure LinksSound (t : Tables) : Prop where
  state : t.LinkState
  whole : t.LinksWhole

/-- The run lemma. -/
theorem linksSound {s s' : Server} {steps : List (Server × Operation × Server)}
    (hdevices : s.tables.emulators = []) (hlinks : s.tables.userEmulators = [])
    (hrun : Trace Completes s steps s') : LinksSound s'.tables := by
  refine hrun.invariant (I := fun s => LinksSound s.tables) ?_ ⟨?_, ?_⟩
  · intro s op s' hstep hs
    exact ⟨hstep.linkState hs.state, hstep.linksWhole hs.whole⟩
  · intro e he
    rw [hdevices] at he
    cases he
  · intro l hl
    rw [hlinks] at hl
    cases hl

/-- Runs one operation after another, each on its inputs, as long as they
complete. -/
def completeAll : List (Operation × List Ext) → Server → Option Server
  | [], s => some s
  | (op, xs) :: l, s =>
    (op.prog.run xs s).bind fun o => if o.1.toBool then completeAll l o.2 else none

theorem trace_of_completeAll {l : List (Operation × List Ext)} {s₀ s s' : Server}
    {steps : List (Server × Operation × Server)} (hs : Trace Completes s₀ steps s)
    (hdto : ∀ call ∈ l, call.1.FromDto) (h : completeAll l s = some s') :
    ∃ steps', Trace Completes s₀ (steps ++ steps') s' ∧
      steps'.map (fun x => x.2.1) = l.map Prod.fst := by
  induction l generalizing s steps with
  | nil =>
    cases h
    exact ⟨[], by rwa [List.append_nil], rfl⟩
  | cons call l ih =>
    obtain ⟨o, ho, h⟩ := Option.bind_eq_some_iff.1 h
    cases hok : o.1 with
    | error e =>
      rw [hok] at h
      cases h
    | ok a =>
      rw [hok] at h
      have hstep : Completes s call.1 o.2 := by
        refine ⟨hdto call List.mem_cons_self, .of_ends (Prog.ends_of_run ho) fun e he => ?_⟩
        rw [hok] at he
        cases he
      obtain ⟨steps', hsteps, hops⟩ :=
        ih (hs.snoc hstep) (fun c hc => hdto c (List.mem_cons_of_mem _ hc)) h
      exact ⟨(s, call.1, o.2) :: steps', by simpa using hsteps, by simp [hops]⟩

end Operation

end Damaru
