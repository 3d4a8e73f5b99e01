import Damaru.Verify.Keys

/-!
# What is gone stays gone

However the threads of all events take turns, a row that has been deleted comes
back by a request only that gives its key.
-/

namespace Damaru

open Async Table

variable {N : Entity → String → Prop} {s s' : Server}

/-! ## The members of a body -/

theorem String.ne_toString_nat {k : String} (hk : k.toList.any (fun c => !c.isDigit) = true) (n : Nat) :
    k ≠ toString n := by
  rintro rfl
  obtain ⟨c, hc, hdigit⟩ := List.any_eq_true.1 hk
  have hrepr : (toString n).toList = Nat.toDigits 10 n := by
    show (Nat.repr n).toList = _
    exact Nat.toList_repr
  rw [hrepr] at hc
  rw [Nat.isDigit_of_mem_toDigits (by decide) (by decide) hc] at hdigit
  cases hdigit

namespace Json

theorem lookup_spread {v : Json} {k : String} (hk : ∀ n : Nat, k ≠ toString n) :
    v.spread.lookup k = v.get? k := by
  have hindex : ∀ {α : Type} (l : List α) (g : α → Json),
      (l.zipIdx.map fun p => (toString p.2, g p.1)).lookup k = none := by
    intro α l g
    rw [List.lookup_eq_none_iff]
    intro p hp
    obtain ⟨q, -, rfl⟩ := List.mem_map.1 hp
    exact bne_iff_ne.2 (hk q.2)
  cases v with
  | arr l => exact hindex l id
  | str s => exact hindex s.toList fun c => .str (String.singleton c)
  | _ => rfl

theorem get?_spreadWith {v j : Json} {k k' : String} (hne : k' ≠ k) :
    (v.spreadWith k j).get? k' = v.spread.lookup k' := by
  unfold spreadWith
  split
  · show (v.spread.map fun m => if m.1 = k then (k, j) else m).lookup k' = _
    generalize v.spread = ms
    induction ms with
    | nil => rfl
    | cons m ms ih =>
      rw [List.map_cons]
      obtain ⟨key, value⟩ := m
      by_cases hkey : key = k
      · subst hkey
        rw [if_pos rfl, List.lookup_cons, List.lookup_cons, beq_false_of_ne hne]
        exact ih
      · rw [if_neg hkey, List.lookup_cons, List.lookup_cons, ih]
  · show (v.spread ++ [(k, j)]).lookup k' = _
    rw [List.lookup_append, List.lookup_cons, beq_false_of_ne hne]
    exact Option.or_none

end Json

/-! ## Requests, messages and logins -/

theorem HttpRequest.renews_run {req : HttpRequest} (user : JwtToken)
    (hN : ∀ n k, (Event.http user req).Names n k → N n k) : (req.run user).Each (Renews N) := by
  cases req with
  | users_findAll => exact renews_query.bind fun _ => trivial
  | users_create dto =>
    refine each_reading ((UsersService.renews_create fun k hk => hN .users k ?_).bind fun _ => trivial)
    rw [Json.get?_spreadWith (by decide), Json.lookup_spread (String.ne_toString_nat (by decide))] at hk
    exact hk
  | users_update id dto => exact (UsersService.renews_update _ _).bind fun _ => trivial
  | users_delete id => exact (UsersService.renews_remove _).bind fun _ => trivial
  | accounts_findAll => exact (AccountsService.renews_findAll _).bind fun _ => trivial
  | accounts_findOne id => exact (AccountsService.renews_findOne _ _).bind fun _ => trivial
  | accounts_create dto => exact (AccountsService.renews_create _).bind fun _ => trivial
  | accounts_update id dto => exact (AccountsService.renews_update _ _ _).bind fun _ => trivial
  | accounts_delete id => exact (AccountsService.renews_remove _ _).bind fun _ => trivial
  | emulators_findAll =>
    exact Prog.Each.bind (renews_query.bind fun _ => renews_query) fun _ => trivial
  | emulators_findLinkAccounts d =>
    refine Prog.Each.bind (renews_query.bind fun _ => ?_) fun _ => trivial
    exact (Prog.each_ofExcept _).bind fun _ => trivial
  | emulators_create dto =>
    refine (EmulatorService.renews_create (hN .emulator)).bind fun added => ?_
    split
    · exact trivial
    · exact trivial
  | emulators_uploadFile d file =>
    refine (EmulatorService.renews_linkScreenshot (hN .emulator d rfl)).bind fun _ => ?_
    cases file <;> exact trivial
  | emulators_update id dto =>
    refine (EmulatorService.renews_update _ _ (hN .emulator)).bind fun updated => ?_
    split
    · exact trivial
    · exact trivial
  | emulators_delete id => exact Prog.Each.bind emulatorRepository_stores.renews_deleteById fun _ => trivial
  | emulators_linkEmulator dto =>
    exact each_reading ((each_forOf fun _ => EmulatorService.renews_linkDevice _ _).bind fun _ => trivial)
  | emulators_unlinkEmulator dto =>
    exact each_reading ((each_forOf fun _ => EmulatorService.renews_unlinkDevice _ _).bind fun _ => trivial)
  | emulators_extendExpiry dto =>
    exact each_reading ((EmulatorService.renews_extend _).bind fun _ => trivial)
  | emulators_connectionLog a d =>
    exact Prog.Each.bind (renews_query.bind fun _ => Prog.each_ofExcept _) fun _ => trivial
  | emulators_assignEmulator dto =>
    refine each_reading (Prog.Each.bind ?_ fun _ => trivial)
    unfold EmulatorService.assignEmulator
    split
    · exact EmulatorService.each_withLink (Renews.refl N) fun _ => each_forOf fun _ =>
        EmulatorService.renews_tryAssign _ _
    · exact trivial
  | emulators_assignEmulatorsToAccount dto =>
    refine each_reading (Prog.Each.bind ?_ fun _ => trivial)
    unfold EmulatorService.assignEmulatorsToAccount
    split
    · exact each_forOf fun _ => EmulatorService.each_withLink (Renews.refl N) fun _ =>
        EmulatorService.renews_tryAssign _ _
    · exact trivial
  | emulators_unAssignEmulatorsToAccount dto =>
    refine each_reading (Prog.Each.bind ?_ fun _ => trivial)
    unfold EmulatorService.unassignEmulatorsToAccount
    split
    · exact each_forOf fun _ => EmulatorService.each_withLink (Renews.refl N) fun _ =>
        EmulatorService.renews_tryUnassign _ _ _
    · exact trivial
  | emulators_unAssignEmulatorFromAccounts dto =>
    exact each_reading ((EmulatorService.each_withLink (Renews.refl N) fun _ =>
      each_forOf fun _ => EmulatorService.renews_tryUnassign _ _ _).bind fun _ => trivial)
  | emulators_restartEmulator d =>
    exact Prog.Each.bind (EmulatorService.renews_sync fun _ => ⟨rfl, rfl⟩) fun _ => trivial
  | activityLogs_findAll => exact renews_query.bind fun _ => trivial
  | activityLogs_create dto =>
    exact each_reading ((ActivityLogService.renews_log _ _).bind fun _ => trivial)
  | activityLogs_update id dto =>
    exact (ActivityLogService.renews_update _ (hN .activityLog)).bind fun _ => trivial
  | activityLogs_delete id =>
    exact Prog.Each.bind activityLogRepository_stores.renews_deleteById fun _ => trivial
  | auth_check => exact trivial

namespace SignalingServerGateway

theorem renews_emit {key : JsVal} {event : String} {payload : List (String × JsVal)} :
    (sync fun s => (.ok (), emit (get s.connections key) event payload s) : Svc Unit).Each (Renews N) := by
  refine EmulatorService.renews_sync fun s => ?_
  unfold emit
  split
  · exact ⟨rfl, rfl⟩
  · exact ⟨rfl, rfl⟩

theorem renews_run (client : Socket) (user : JwtToken) (body : Json) (event : Event) :
    (run client user body event).Each (Renews N) := by
  cases event with
  | StartStreaming =>
    show (handleStartStreaming client (body.get? "deviceId")).Each (Renews N)
    unfold handleStartStreaming
    split
    · refine Prog.Each.bind (EmulatorService.renews_sync fun _ => ⟨rfl, rfl⟩) fun _ => ?_
      exact (EmulatorService.renews_update _ _ nofun).bind fun _ => trivial
    · exact trivial
  | Offer =>
    refine EmulatorService.renews_sync fun s => ?_
    dsimp only
    split
    · exact ⟨rfl, rfl⟩
    · exact ⟨rfl, rfl⟩
  | Answer =>
    show (handleAnswer (body.get? "clientId") (body.get? "sdp")).Each (Renews N)
    unfold handleAnswer
    split
    · exact renews_emit
    · exact trivial
  | IceCandidate => exact renews_emit
  | Disconnect => exact renews_emit
  | Connect => exact EmulatorService.renews_connectEmulator _ _

end SignalingServerGateway

/-- Each step of the code of an event adds rows under new keys, and under those
that the event gives. -/
theorem Event.each_renews (e : Event) : e.prog.Each (Renews e.Names) := by
  cases e with
  | http user req =>
    refine Prog.Each.bind ?_ fun _ => trivial
    cases hadmits : req.admits user with
    | true =>
      rw [HttpRequest.handle_of_admits hadmits]
      exact HttpRequest.renews_run user fun _ _ hk => hk
    | false =>
      rw [HttpRequest.handle_of_not_admits hadmits]
      exact trivial
  | message client user event body =>
    cases hacc : SignalingServerGateway.accepts user event body with
    | false =>
      obtain ⟨err, hprog⟩ : ∃ err, (message client user event body).prog = throw err :=
        SignalingServerGateway.handle_of_not_accepts hacc
      rw [hprog]
      exact trivial
    | true =>
      have hprog : (message client user event body).prog = SignalingServerGateway.run client user body event :=
        SignalingServerGateway.handle_of_accepts hacc
      rw [hprog]
      exact SignalingServerGateway.renews_run client user body event
  | disconnect client =>
    refine renews_query.bind fun registered => ?_
    exact Prog.Each.forM (fun _ => (EmulatorService.renews_disconnectEmulator _).detach) _
  | login dto =>
    refine (AuthService.each_validateUser_of (Renews.refl _) (fun _ => ?_) dto).bind fun _ => trivial
    exact accountRepository_stores.renews_set fun _ _ => rfl

/-! ## Everything at once -/

theorem Entity.Same.ids {t t' : Tables} {n : Entity} (h : n.Same t t') : n.ids t' = n.ids t := by
  cases n <;> exact congrArg (List.map _) h

/-- Every move adds rows under new keys, and under those that its event gives,
and writes what its event has to do with. -/
theorem renews_moves {w₀ w : Gateway} {steps : List (Gateway × Live.Move Event Ext Server Rejection × Gateway)}
    (hstart : w₀.threads = []) (hrun : Trace (Live.Step serving) w₀ steps w) :
    ∀ x ∈ steps, ∃ e, x.2.1.author = some e ∧ Renews e.Names x.1.state x.2.2.state ∧
      Attributed e x.1.state x.2.2.state := by
  have hrenews := Live.each_run (C := fun _ => True) (R := fun e => Renews e.Names)
    (fun e x s _ => Event.each_start (Renews.refl e.Names) e.each_renews x s) hrun
    hstart fun _ _ _ _ => trivial
  have hattributed := Live.each_run (C := fun _ => True) (R := Attributed)
    (fun e x s _ => Event.each_start (Attributed.refl e) e.each_attributed x s) hrun
    hstart fun _ _ _ _ => trivial
  intro x hx
  obtain ⟨e, he⟩ := exists_author hrun x hx
  exact ⟨e, he, (hrenews x hx e he).2, (hattributed x hx e he).2⟩

/-- A key that has been used has been used before every later move. -/
theorem used_before {w w' : Gateway} {steps : List (Gateway × Live.Move Event Ext Server Rejection × Gateway)}
    (hrun : Trace (Live.Step serving) w steps w')
    (hmoves : ∀ x ∈ steps, x.1.state.used ⊆ x.2.2.state.used) {k : String} (hk : k ∈ w.state.used) :
    (∀ x ∈ steps, k ∈ x.1.state.used) ∧ k ∈ w'.state.used :=
  ⟨hrun.forall_mem_of_invariant (I := fun w => k ∈ w.state.used)
      (fun x hx _ hused => ⟨hmoves x hx hused, hused⟩) hk,
    hrun.invariant_of_mem (I := fun w => k ∈ w.state.used) (fun x hx _ hused => hmoves x hx hused) hk⟩

/-- **Deleted for good.** However the threads of all events take turns, a row
that was there and has gone comes back by a move of an admitted event only that
gives the very key of the row. -/
theorem deleted_for_good {w₀ w₁ w₂ w₃ : Gateway}
    {l₁ l₂ l₃ : List (Gateway × Live.Move Event Ext Server Rejection × Gateway)} (hstart : w₀.threads = [])
    (hrun₁ : Trace (Live.Step serving) w₀ l₁ w₁) (hrun₂ : Trace (Live.Step serving) w₁ l₂ w₂)
    (hrun₃ : Trace (Live.Step serving) w₂ l₃ w₃) {n : Entity} {k : String}
    (hthere : k ∈ n.ids w₁.state.tables) (hgone : k ∉ n.ids w₂.state.tables)
    (hback : k ∈ n.ids w₃.state.tables) : ∃ x ∈ l₃, k ∉ n.ids x.1.state.tables ∧
      k ∈ n.ids x.2.2.state.tables ∧ ∃ e, x.2.1.author = some e ∧ e.Admitted ∧ e.Names n k := by
  have hmoves := renews_moves hstart ((hrun₁.append hrun₂).append hrun₃)
  have hgrows : ∀ x ∈ (l₁ ++ l₂) ++ l₃, x.1.state.used ⊆ x.2.2.state.used := by
    intro x hx
    obtain ⟨e, -, hrenews, -⟩ := hmoves x hx
    exact hrenews.used
  have hused : n.Generated → ∀ x ∈ l₃, k ∈ x.1.state.used := by
    intro hn
    obtain ⟨-, hk⟩ := used_before hrun₂ (fun x hx => hgrows x (by simp [hx])) (n.mem_used hn hthere)
    exact (used_before hrun₃ (fun x hx => hgrows x (by simp [hx])) hk).1
  obtain ⟨x, hx, -, hbefore, hafter⟩ := hrun₃.origin (P := fun w => k ∈ n.ids w.state.tables) hgone hback
  obtain ⟨e, he, hrenews, hattributed⟩ := hmoves x (List.mem_append_right _ hx)
  refine ⟨x, hx, hbefore, hafter, e, he, ?_, ?_⟩
  · rcases hattributed.tables n with hsame | ⟨hadmitted, -⟩
    · exact absurd (hsame.ids ▸ hafter) hbefore
    · exact hadmitted
  · rcases hrenews.ids n k hafter with hk | ⟨hn, hk⟩ | hk
    · exact absurd hk hbefore
    · exact absurd (hused hn x hx) hk
    · exact hk

namespace Sample

/-- A device is deleted. -/
def deletion : List (Live.Choice Event Ext) :=
  [.arrive (.http emulatorAdmin (.emulators_delete "d")) (input ""), .turn 0 (input "")]

/-- It is added again. -/
def addition : List (Live.Choice Event Ext) :=
  [.arrive (.http emulatorAdmin (.emulators_create (.obj [("device_id", .str "d")]))) (input ""),
    .turn 1 (input ""), .turn 1 (input "")]

end Sample

theorem deleted_for_good_sample : ∃ l₂ l₃ w₂ w₃, Trace (Live.Step serving) Sample.idle l₂ w₂ ∧
    Trace (Live.Step serving) w₂ l₃ w₃ ∧ "d" ∉ Entity.emulator.ids w₂.state.tables ∧
    ∃ x ∈ l₃, "d" ∉ Entity.emulator.ids x.1.state.tables ∧ "d" ∈ Entity.emulator.ids x.2.2.state.tables ∧
      ∃ e, x.2.1.author = some e ∧ e.Admitted ∧ e.Names .emulator "d" := by
  have hplay : (Live.play serving (fun _ _ => true) Sample.deletion Sample.idle).any (fun w₂ =>
      decide ("d" ∉ Entity.emulator.ids w₂.state.tables) &&
      (Live.play serving (fun _ _ => true) Sample.addition w₂).any fun w₃ =>
        decide ("d" ∈ Entity.emulator.ids w₃.state.tables)) = true := by
    decide +kernel
  obtain ⟨w₂, hw₂, hboth⟩ := (Option.any_eq_true _ _).1 hplay
  obtain ⟨hgone, hlater⟩ := Bool.and_eq_true_iff.1 hboth
  obtain ⟨w₃, hw₃, hback⟩ := (Option.any_eq_true _ _).1 hlater
  obtain ⟨l₂, hrun₂, -⟩ := Live.trace_of_play .nil hw₂
  obtain ⟨l₃, hrun₃, -⟩ := Live.trace_of_play .nil hw₃
  exact ⟨l₂, l₃, w₂, w₃, hrun₂, hrun₃, of_decide_eq_true hgone, deleted_for_good rfl .nil hrun₂ hrun₃
    (by decide) (of_decide_eq_true hgone) (of_decide_eq_true hback)⟩

end Damaru
