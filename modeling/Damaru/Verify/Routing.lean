import Damaru.Verify.Sessions

/-!
# Where replies go

An offer travels with the account of its sender, and a reply comes back with
it: the gateway looks the account up in its map and so finds the socket that
registered last under it, whoever that is.
-/

namespace Damaru

open Async

namespace SignalingServerGateway

/-- What a device sends back to a client: an answer, or a candidate that is
marked as a device's. -/
def Replies (event : Event) (body : Json) : Prop :=
  event = .Answer ∨ (event = .IceCandidate ∧ (body.get? "isEmulator").truthy = true)

/-- The gateway passes the reply on: it accepts the message, and an answer
names a client. -/
def passes (user : JwtToken) (event : Event) (body : Json) : Bool :=
  accepts user event body && (event ≠ .Answer || (body.get? "clientId").truthy)

/-- The fields of a reply that are passed on. -/
def replied (event : Event) (body : Json) : List (String × JsVal) :=
  (if event = .Answer then ["sdp"] else ["iceCandidate", "clientId", "deviceId", "isEmulator"]).map fun k =>
    (k, body.get? k)

/-- What is emitted on a socket, if there is one. -/
def emission (event : Event) (payload : List (String × JsVal)) (socket : Socket) : Emission :=
  ⟨.socket socket, event.name, payload⟩

/-- A reply is emitted on the socket that its client is registered with, if
there is one, and on no other. -/
theorem reply_emitted {client : Socket} {user : JwtToken} {event : Event} {body : Json}
    {s s' : Server} (hreply : Replies event body)
    (h : Step s (.message client user event body) s') :
    s'.emitted = s.emitted ++
      if passes user event body then
        (get s.connections (body.get? "clientId")).toList.map (emission event (replied event body))
      else [] := by
  cases hacc : accepts user event body with
  | false =>
    rw [step_of_not_accepts h hacc]
    simp [passes, hacc]
  | true =>
    have hprog : (Damaru.Event.message client user event body).prog = run client user body event :=
      handle_of_accepts hacc
    unfold Step at h
    rw [hprog] at h
    rcases hreply with rfl | ⟨rfl, his⟩
    · have hrun : run client user body .Answer =
        handleAnswer (body.get? "clientId") (body.get? "sdp") := rfl
      rw [hrun] at h
      unfold handleAnswer at h
      cases hid : (body.get? "clientId").truthy with
      | true =>
        rw [if_pos hid] at h
        rw [settles_sync h, emit_emitted, if_pos (by simp [passes, hacc, hid])]
        rfl
      | false =>
        rw [hid, if_neg Bool.false_ne_true] at h
        obtain ⟨r, hr, -⟩ := h.ends Prog.forkFree_pure
        rw [(Prog.ends_pure.1 hr).2]
        simp [passes, hid]
    · have hpass : passes user .IceCandidate body = true := by
        unfold passes
        rw [hacc]
        rfl
      rw [settles_sync h, emit_emitted, if_pos his, if_pos hpass]
      rfl

/-- The registrations that the steps of a run have made. -/
def registrations (steps : List (Session × Damaru.Event × Session)) : List Registration :=
  steps.flatMap fun x => (registration x.1.server x.2.1).toList

/-- The run lemma: a key finds the socket that has registered last under it in
the run, or the one that it has found before. -/
theorem get_run {w w' : Session} {steps : List (Session × Damaru.Event × Session)}
    (hrun : Trace Session.Step w steps w') (key : JsVal) :
    get w'.server.connections key =
      (lastRegistered (registrations steps) key).or (get w.server.connections key) := by
  induction hrun with
  | nil => rfl
  | @snoc w₁ w₂ e l hprefix hlast ih =>
    have hsteps : registrations (l ++ [(w₁, e, w₂)]) =
        registrations l ++ (registration w₁.server e).toList := by
      simp [registrations]
    rw [hsteps, lastRegistered_append, connections_step hlast.handled, get_register, ih,
      Option.or_assoc]

/-- An offer that reaches a device registers its sender's socket under the
account of its token. -/
theorem get_of_offer {client em : Socket} {user : JwtToken} {body : Json} {s s' : Server}
    (h : Damaru.Step s (.message client user .Offer body) s') (hforwards : Forwards .Offer em s s') :
    get s'.connections (user.accountId.map Json.str) = some client := by
  obtain ⟨hacc, hget⟩ := (forwards_iff forwarded_offer h em).1 hforwards
  have hfound : get s.connections (body.get? "deviceId") = some em := hget
  have hreg : registration s (.message client user .Offer body) =
      some ⟨.Offer, user.accountId.map Json.str, client⟩ := by
    simp [registration, hacc, hfound]
  have hself : JsVal.sameKey (user.accountId.map Json.str) (user.accountId.map Json.str) = true := by
    cases user.accountId with
    | none => rfl
    | some a => exact decide_eq_true rfl
  rw [connections_step h, hreg, get_register]
  simp [lastRegistered, hself]

end SignalingServerGateway

open SignalingServerGateway

/-- **Where replies go.** After an offer has reached a device, a reply to the
account that the offer carried is emitted on the socket that has registered
last under this account since, or on the sender's if none has, and nowhere
else; unless the gateway does not pass the reply on. -/
theorem reply_to_last {w₁ w₂ w w' : Session} {client em replier : Socket} {user user' : JwtToken}
    {body body' : Json} {reply : SignalingServerGateway.Event}
    {steps : List (Session × Event × Session)}
    (hoffer : Session.Step w₁ (.message client user .Offer body) w₂)
    (hforwards : Forwards .Offer em w₁.server w₂.server) (hrun : Trace Session.Step w₂ steps w)
    (hreply : Session.Step w (.message replier user' reply body') w')
    (hkind : Replies reply body') (hclient : body'.get? "clientId" = user.accountId.map Json.str) :
    w'.server.emitted = w.server.emitted ++
      if passes user' reply body' then
        [emission reply (replied reply body')
          ((lastRegistered (registrations steps) (user.accountId.map Json.str)).getD client)]
      else [] := by
  rw [reply_emitted hkind hreply.handled, hclient, get_run hrun, get_of_offer hoffer.handled hforwards]
  cases lastRegistered (registrations steps) (user.accountId.map Json.str) <;> rfl

namespace Sample

def answer (client : String) : Event :=
  .message ⟨"device"⟩ emulatorAdmin .Answer (.obj [("clientId", .str client), ("sdp", .str "sdp")])

/-- An offer of another account of the user. -/
def otherOffer : Event := offer "two" (androidAccount "v" "v-one") "e"

/-- The offers of two sockets of one account. -/
def twoOffers : List (Event × List (Nat × Ext)) :=
  [(startStreaming "device" "e", alone ["", ""]),
    (offer "one" (androidAdmin "v" "v-root") "e", alone [""]),
    (offer "two" (androidAdmin "v" "v-root") "e", alone [""])]

end Sample

/-- A device answers an offer after another account has made one. -/
theorem reply_to_last_offerer : ∃ w₁ w₂ w w',
    Session.Step w₁ (Sample.offer "one" (Sample.androidAdmin "v" "v-root") "e") w₂ ∧
    Session.Step w₂ Sample.otherOffer w ∧
    Session.Step w (Sample.answer "v-root") w' ∧
    w'.server.emitted = w.server.emitted ++ [emission .Answer [("sdp", some (.str "sdp"))] ⟨"one"⟩] := by
  have hplay : (Session.play [(Sample.startStreaming "device" "e", Sample.alone ["", ""])]
      Sample.session).any (fun w₁ =>
      decide (get w₁.server.connections (some (.str "e")) = some ⟨"device"⟩) &&
        (w₁.next (Sample.offer "one" (Sample.androidAdmin "v" "v-root") "e") (Sample.alone [""])).any
          fun w₂ => decide (lastRegistered (registration w₂.server Sample.otherOffer).toList
              (some (.str "v-root")) = none) &&
            (w₂.next Sample.otherOffer (Sample.alone [""])).any fun w =>
              (w.next (Sample.answer "v-root") (Sample.alone [""])).isSome) = true := by
    decide +kernel
  obtain ⟨w₁, -, hplay⟩ := (Option.any_eq_true _ _).1 hplay
  obtain ⟨hget, hplay⟩ := Bool.and_eq_true_iff.1 hplay
  obtain ⟨w₂, hw₂, hplay⟩ := (Option.any_eq_true _ _).1 hplay
  obtain ⟨hother, hplay⟩ := Bool.and_eq_true_iff.1 hplay
  obtain ⟨w, hw, hplay⟩ := (Option.any_eq_true _ _).1 hplay
  obtain ⟨w', hw'⟩ := Option.isSome_iff_exists.1 hplay
  have hoffer := Session.step_of_next hw₂
  have hbetween := Session.step_of_next hw
  have hreply := Session.step_of_next hw'
  have hforwards : Forwards .Offer ⟨"device"⟩ w₁.server w₂.server :=
    (forwards_iff forwarded_offer hoffer.handled _).2 ⟨by decide, of_decide_eq_true hget⟩
  have hnone : lastRegistered (registrations [(w₂, Sample.otherOffer, w)]) (some (.str "v-root")) = none := by
    simpa [registrations] using of_decide_eq_true hother
  have hemitted := reply_to_last hoffer hforwards (.snoc .nil hbetween) hreply (.inl rfl) rfl
  rw [if_pos (by decide)] at hemitted
  refine ⟨w₁, w₂, w, w', hoffer, hbetween, hreply, hemitted.trans ?_⟩
  show _ ++ [emission .Answer _ ((lastRegistered (registrations [(w₂, Sample.otherOffer, w)])
    (some (.str "v-root"))).getD ⟨"one"⟩)] = _
  rw [hnone]
  rfl

/-- A device answers the first of two offers of one account, and the second
socket gets the answer. -/
theorem reply_misrouted : ∃ steps w w', Trace Session.Step Sample.session steps w ∧
    steps.map (fun x => x.2.1) = Sample.twoOffers.map Prod.fst ∧
    w.history.Connected ⟨"one"⟩ ∧ Session.Step w (Sample.answer "v-root") w' ∧
    Forwards .Answer ⟨"two"⟩ w.server w'.server := by
  have hplay : (Session.play Sample.twoOffers Sample.session).any (fun w =>
      decide (w.history.Connected ⟨"one"⟩) &&
      (decide (get w.server.connections (some (.str "v-root")) = some ⟨"two"⟩) &&
        (w.next (Sample.answer "v-root") (Sample.alone [""])).isSome)) = true := by
    decide +kernel
  obtain ⟨w, hw, hplay⟩ := (Option.any_eq_true _ _).1 hplay
  obtain ⟨hconnected, hplay⟩ := Bool.and_eq_true_iff.1 hplay
  obtain ⟨hget, hplay⟩ := Bool.and_eq_true_iff.1 hplay
  obtain ⟨w', hw'⟩ := Option.isSome_iff_exists.1 hplay
  obtain ⟨steps, hrun, hevents⟩ := Session.trace_of_play .nil hw
  have hreply := Session.step_of_next hw'
  refine ⟨steps, w, w', hrun, hevents, of_decide_eq_true hconnected, hreply, ?_⟩
  have hfound : get w.server.connections (some (.str "v-root")) = some ⟨"two"⟩ :=
    of_decide_eq_true hget
  refine ⟨[("sdp", some (.str "sdp"))], ?_⟩
  rw [reply_emitted (.inl rfl) hreply.handled, if_pos (by decide)]
  show _ ++ (get w.server.connections (some (.str "v-root"))).toList.map _ = _
  rw [hfound]
  rfl

end Damaru
