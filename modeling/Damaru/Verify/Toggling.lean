import Damaru.Async.Amid
import Damaru.Verify.Modes

/-!
# Toggling encryption under a request

A request reads the flag in its outer interceptor and once more in its inner
one, and other requests may set the flag between the two. Then one of them
encrypts, or not, for a mode that the other does not know of.
-/

namespace Damaru

open Async Text EncryptionService EncryptionInterceptor ResponseInterceptor

variable {node : Node} {isDev : Bool} {route : Route} {request : Incoming}

/-- A call of `toggleEncryption` by another request. -/
def Toggles (rows rows' : List Encryption) : Prop :=
  ∃ enabled message, (toggleEncryption enabled).Ends rows (.ok message) rows'

/-- The reply is the one that the request gets while the flag stands, set or not. -/
def Atomic (node : Node) (isDev : Bool) (route : Route) (request : Incoming) (reply : Reply) : Prop :=
  (∃ rows, Enabled rows ∧ (handleRequest node isDev route request).Ends rows (.ok reply) rows) ∨
    ∃ rows, Disabled rows ∧ (handleRequest node isDev route request).Ends rows (.ok reply) rows

/-- The message of what is left of an encrypted reply in an envelope. -/
def LeftMessage (node : Node) (request : Incoming) (message : String) : Prop :=
  ((∃ key body, Delivers node request key body) ∧ message = "Success") ∨
    ((∀ key body, ¬ Delivers node request key body) ∧ message = "Failed to decrypt request parameters")

/-- What a request may find of the flag, first outside and then inside. Twice
the same; or it is reset in between, and the handler fails on the body as it
came, or makes its own envelope; or it is set in between, and the handler
returns nothing, or on the body as it came no more than is left of its reply. -/
inductive Untorn (node : Node) (route : Route) (request : Incoming) : Bool → Bool → Prop where
  | steady (enabled : Bool) : Untorn node route request enabled enabled
  | fails {error : Thrown} (hv : route.handler request.body = .error error) : Untorn node route request true false
  | enveloped {v : Value} (hv : route.handler request.body = .ok (some v))
    (hsame : v.json.copy = (enveloped v.json).copy) : Untorn node route request true false
  | undefined {key : Units} {body : Option Text.Json} (hdelivers : Delivers node request key body)
    (hv : route.handler body = .ok none) : Untorn node route request false true
  | emptied {v : Value} {message : String} (hv : route.handler request.body = .ok (some v)) (hnull : v.json ≠ .null)
    (hdata : v.json.get? (ofString "data") = none) (hmessage : messageOf v.json = .str (ofString message))
    (hleft : LeftMessage node request message) : Untorn node route request false true

/-! ## What toggling does to the flag -/

theorem flag_map (enabled : Bool) (rows : List Encryption) :
    flag (rows.map fun r => if r.id = "1" then { r with enabled } else r) =
      (flag rows).map fun r => { r with enabled } := by
  unfold flag
  induction rows with
  | nil => rfl
  | cons r rows ih =>
    rw [List.map_cons, List.find?_cons, List.find?_cons]
    by_cases hr : r.id = "1"
    · rw [if_pos hr]
      dsimp only
      rw [decide_eq_true hr]
      rfl
    · rw [if_neg hr, decide_eq_false hr]
      exact ih

theorem isSome_flag_of_toggles {rows rows' : List Encryption} (h : Toggles rows rows') :
    (flag rows').isSome = (flag rows).isSome := by
  obtain ⟨enabled, message, h⟩ := h
  rcases Prog.ends_bind.1 h with ⟨e, he, -⟩ | ⟨a, t, hop, hpure⟩
  · cases he
  · obtain ⟨-, rfl⟩ := Prog.ends_pure.1 hpure
    obtain ⟨x, hstep⟩ := Prog.ends_op.1 hop
    obtain ⟨-, rfl⟩ := Prod.mk.inj hstep
    rw [flag_map, Option.isSome_map]

theorem isSome_flag_of_steps {rows rows' : List Encryption} (h : Relation.ReflTransGen Toggles rows rows') :
    (flag rows').isSome = (flag rows).isSome := by
  induction h with
  | refl => rfl
  | tail _ hstep ih => exact (isSome_flag_of_toggles hstep).trans ih

/-- Amid toggles, a request finds the flag twice and is answered by what it found. -/
theorem amid_handleRequest {rows rows' : List Encryption} {found : List (List Encryption)} {r : Except Thrown Reply}
    (hrows : (flag rows).isSome = true)
    (h : Prog.Amid Toggles (handleRequest node isDev route request) rows found r rows') :
    ∃ outer inner, found.map flag = [some outer, some inner] ∧
      r = .ok (replyTo node isDev route request (some outer) (some inner)) := by
  rw [handleRequest_eq] at h
  obtain ⟨t, rest, -, hsteps, hfound, hinside⟩ := Prog.amid_op_bind h
  obtain ⟨t', rest', -, hsteps', hrest, hreply⟩ := Prog.amid_op_bind hinside
  obtain ⟨hnil, hr⟩ := Prog.amid_pure hreply
  have ht := (isSome_flag_of_steps hsteps).trans hrows
  have ht' := (isSome_flag_of_steps hsteps').trans ht
  obtain ⟨outer, houter⟩ := Option.isSome_iff_exists.1 ht
  obtain ⟨inner, hinner⟩ := Option.isSome_iff_exists.1 ht'
  refine ⟨outer, inner, ?_, ?_⟩
  · rw [hfound, hrest, hnil, List.map_cons, List.map_cons, houter, hinner, List.map_nil]
  · rw [hr, ← houter, ← hinner]
    rfl

/-! ## What is left of a reply -/

section

variable {outer inner : Encryption} {key : Units} {body : Option Text.Json}

theorem replyTo_congr {outer' inner' : Encryption} (houter : outer.enabled = outer'.enabled)
    (hinner : inner.enabled = inner'.enabled) :
    replyTo node isDev route request (some outer) (some inner) =
      replyTo node isDev route request (some outer') (some inner') := by
  have hemitted : emitted node isDev route request (some inner) = emitted node isDev route request (some inner') := by
    unfold emitted
    dsimp only
    rw [hinner]
  have htransform : transform node (some outer) = transform node (some outer') := by
    unfold transform
    dsimp only
    rw [houter]
  unfold replyTo
  rw [hemitted, htransform]

/-- While the flag stands. -/
theorem atomic_steady (h : outer.enabled = inner.enabled) :
    Atomic node isDev route request (replyTo node isDev route request (some outer) (some inner)) := by
  have hends : (handleRequest node isDev route request).Ends [⟨"1", inner.enabled⟩]
      (.ok (replyTo node isDev route request (some outer) (some inner))) [⟨"1", inner.enabled⟩] :=
    ends_handleRequest.2 ⟨congrArg Except.ok (replyTo_congr h rfl), rfl⟩
  cases henabled : inner.enabled with
  | true => exact .inl ⟨_, ⟨⟨"1", inner.enabled⟩, rfl, henabled⟩, hends⟩
  | false => exact .inr ⟨_, ⟨⟨"1", inner.enabled⟩, rfl, henabled⟩, hends⟩

/-- The envelope of an encrypted reply keeps nothing of it. -/
theorem replyTo_lost (houter : outer.enabled = false) (hinner : inner.enabled = true)
    (hexcluded : route.excluded = false) (h : Delivers node request key body) (hv : route.handler body ≠ .ok none) :
    replyTo node isDev route request (some outer) (some inner) =
      ⟨route.httpCode, .json (Text.Json.stringify (.obj [(ofString "status", .bool true),
        (ofString "message", .str (ofString "Success"))]))⟩ := by
  have hsome : ∃ v, Observable.recover (fun error => some (exception isDev error.message error.stack))
      ((route.handler body).map fun v => v.map Value.json) = some v := by
    cases hcase : route.handler body with
    | error error => exact ⟨_, rfl⟩
    | ok data =>
      cases data with
      | none => exact absurd hcase hv
      | some v => exact ⟨_, rfl⟩
  obtain ⟨v, hsome⟩ := hsome
  have hemitted : emitted node isDev route request (some inner) =
      .ok (some (.str (aesEncrypt node v.stringify key))) := by
    rw [emitted_of_delivers hinner hexcluded h, hsome]
    rfl
  have htransform : transform node (some outer) (some (.str (aesEncrypt node v.stringify key))) =
      .ok (some (enveloped (.str []))) := by
    rw [transform_disabled houter]
    rfl
  rw [replyTo_of_ok hemitted htransform]
  rfl

/-- The envelope of a failure reports a success. -/
theorem replyTo_reported (houter : outer.enabled = false) (hinner : inner.enabled = true)
    (hexcluded : route.excluded = false) (h : ∀ key body, ¬ Delivers node request key body) :
    replyTo node isDev route request (some outer) (some inner) =
      ⟨route.httpCode, .json (Text.Json.stringify (.obj [(ofString "status", .bool true),
        (ofString "message", .str (ofString "Failed to decrypt request parameters"))]))⟩ := by
  have hemitted : ∃ stack, emitted node isDev route request (some inner) =
      .ok (some (exception isDev (ofString "Failed to decrypt request parameters") stack)) := by
    unfold emitted
    dsimp only
    rw [hinner, hexcluded]
    cases hrequest : decryptRequest node request with
    | error error => exact ⟨_, rfl⟩
    | ok r => exact absurd (delivers_of_decryptRequest hrequest) (h r.1 r.2)
  obtain ⟨stack, hemitted⟩ := hemitted
  have htransform : transform node (some outer)
      (some (exception isDev (ofString "Failed to decrypt request parameters") stack)) =
        .ok (some (.obj [(ofString "status", .bool true),
          (ofString "message", .str (ofString "Failed to decrypt request parameters"))])) := by
    rw [transform_disabled houter]
    cases isDev with
    | true => rfl
    | false => rfl
  rw [replyTo_of_ok hemitted htransform]
  rfl

theorem enveloped_eq {v message : Text.Json} (hdata : v.get? (ofString "data") = none)
    (hmessage : messageOf v = message) :
    enveloped v = .obj [(ofString "status", .bool true), (ofString "message", message)] := by
  unfold enveloped
  rw [hdata, hmessage]
  rfl

/-- A reset between the two reads. -/
theorem atomic_reset (houter : outer.enabled = true) (hinner : inner.enabled = false)
    (h : Untorn node route request true false) :
    Atomic node isDev route request (replyTo node isDev route request (some outer) (some inner)) := by
  cases h with
  | fails hv =>
    have hemitted : ∃ error, emitted node isDev route request (some inner) = .error error := by
      rw [emitted_plain (.inl hinner), hv]
      exact ⟨_, rfl⟩
    obtain ⟨error, hemitted⟩ := hemitted
    rw [replyTo_of_error hemitted, ← replyTo_of_error hemitted (some inner)]
    exact atomic_steady rfl
  | @enveloped v hv hsame =>
    have hnull : v.json ≠ .null := fun hnull => by
      rw [hnull] at hsame
      cases hsame
    have hreply : replyTo node isDev route request (some outer) (some inner) =
        replyTo node isDev route request (some inner) (some inner) := by
      rw [replyTo_copied houter (.inl hinner) hv, replyTo_enveloped hinner (.inl hinner) hv hnull, hsame,
        ← Text.Json.stringify_copy (enveloped v.json)]
      rfl
    rw [hreply]
    exact atomic_steady rfl

/-- The flag set between the two reads. -/
theorem atomic_set (houter : outer.enabled = false) (hinner : inner.enabled = true)
    (hexcluded : route.excluded = false) (h : Untorn node route request false true) :
    Atomic node isDev route request (replyTo node isDev route request (some outer) (some inner)) := by
  have hundefined : ∀ key body, Delivers node request key body → route.handler body = .ok none →
      Atomic node isDev route request (replyTo node isDev route request (some outer) (some inner)) := by
    intro key body hdelivers hv
    obtain ⟨error, hemitted⟩ := @emitted_undefined node isDev route request inner key body hinner hexcluded hdelivers hv
    rw [replyTo_of_error hemitted, ← replyTo_of_error hemitted (some inner)]
    exact atomic_steady rfl
  cases h with
  | undefined hdelivers hv => exact hundefined _ _ hdelivers hv
  | @emptied v message hv hnull hdata hmessage hleft =>
    have hplain := @replyTo_enveloped node isDev route request outer outer houter (.inl houter) v hv hnull
    rw [enveloped_eq hdata hmessage] at hplain
    rcases hleft with ⟨⟨key, body, hdelivers⟩, rfl⟩ | ⟨hnone, rfl⟩
    · by_cases hv' : route.handler body = .ok none
      · exact hundefined key body hdelivers hv'
      · rw [replyTo_lost houter hinner hexcluded hdelivers hv', ← hplain]
        exact atomic_steady rfl
    · rw [replyTo_reported houter hinner hexcluded hnone, ← hplain]
      exact atomic_steady rfl

end

/-- **When toggling is atomic.** For every request to a handler that is not
excluded, from a table that holds the flag, and for every run amid toggles by
others: the request finds the flag twice, and it is answered; if what it found
does not tear its reply, the reply is the one of a flag that stands. -/
theorem toggling_atomic (hexcluded : route.excluded = false) {rows rows' : List Encryption}
    (hrows : Enabled rows ∨ Disabled rows) {found : List (List Encryption)} {r : Except Thrown Reply}
    (h : Prog.Amid Toggles (handleRequest node isDev route request) rows found r rows')
    (huntorn : ∀ outer inner, found.map flag = [some outer, some inner] →
      Untorn node route request outer.enabled inner.enabled) :
    ∃ reply, r = .ok reply ∧ Atomic node isDev route request reply := by
  have hsome : (flag rows).isSome = true := by
    rcases hrows with ⟨encryption, hflag, -⟩ | ⟨encryption, hflag, -⟩
    · rw [hflag]
      rfl
    · rw [hflag]
      rfl
  obtain ⟨outer, inner, hfound, rfl⟩ := amid_handleRequest hsome h
  refine ⟨_, rfl, ?_⟩
  have huntorn := huntorn outer inner hfound
  cases houter : outer.enabled with
  | true =>
    cases hinner : inner.enabled with
    | true => exact atomic_steady (houter.trans hinner.symm)
    | false =>
      rw [houter, hinner] at huntorn
      exact atomic_reset houter hinner huntorn
  | false =>
    cases hinner : inner.enabled with
    | true =>
      rw [houter, hinner] at huntorn
      exact atomic_set houter hinner hexcluded huntorn
    | false => exact atomic_steady (houter.trans hinner.symm)

/-- One toggle between the two reads. -/
theorem toggled_between (node : Node) (isDev : Bool) (route : Route) (request : Incoming) (before after : Bool) :
    Prog.Amid Toggles (handleRequest node isDev route request) [⟨"1", before⟩] [[⟨"1", before⟩], [⟨"1", after⟩]]
      (.ok (replyTo node isDev route request (some ⟨"1", before⟩) (some ⟨"1", after⟩))) [⟨"1", after⟩] := by
  have htoggles : Toggles [⟨"1", before⟩] [⟨"1", after⟩] :=
    ⟨after, _, Prog.ends_bind.2 (.inr ⟨(), _, Prog.ends_op.2 ⟨(), rfl⟩, Prog.ends_pure.2 ⟨rfl, rfl⟩⟩)⟩
  rw [handleRequest_eq]
  exact .op_bind () (.other htoggles (.op_bind () (.pure _ _)))

theorem toggling_atomic_sample :
    ∃ found reply rows',
      Prog.Amid Toggles (handleRequest Node.padded true ⟨false, 200, fun _ => .error ⟨ofString "No device", []⟩⟩
        ⟨none, none⟩) [⟨"1", true⟩] found (.ok reply) rows' ∧
      found.map flag = [some ⟨"1", true⟩, some ⟨"1", false⟩] ∧
      Atomic Node.padded true ⟨false, 200, fun _ => .error ⟨ofString "No device", []⟩⟩ ⟨none, none⟩ reply := by
  have hrun := toggled_between Node.padded true ⟨false, 200, fun _ => .error ⟨ofString "No device", []⟩⟩
    ⟨none, none⟩ true false
  have hfound : [[Encryption.mk "1" true], [Encryption.mk "1" false]].map flag =
      [some ⟨"1", true⟩, some ⟨"1", false⟩] := rfl
  obtain ⟨reply, hreply, hatomic⟩ := toggling_atomic rfl (.inl ⟨⟨"1", true⟩, rfl, rfl⟩) hrun
    fun outer inner h => by
      rw [hfound] at h
      obtain ⟨houter, hinner⟩ := List.cons.inj h
      obtain ⟨hinner, -⟩ := List.cons.inj hinner
      rw [← Option.some.inj houter, ← Option.some.inj hinner]
      exact .fails rfl
  exact ⟨_, reply, _, hreply ▸ hrun, hfound, hatomic⟩

/-- The flag is set while a request is on its way in: its client gets a success
without the reply, encrypted or not. -/
theorem toggling_tears :
    ∃ request found reply rows',
      Delivers Node.padded request (ofString "key") (some (.obj [])) ∧
      Prog.Amid Toggles (handleRequest Node.padded true (Sample.linking false false) request) [⟨"1", false⟩] found
        (.ok reply) rows' ∧
      ¬ Atomic Node.padded true (Sample.linking false false) request reply := by
  obtain ⟨rsaKey, -, hdelivers⟩ := Sample.delivers
  refine ⟨_, _, _, _, hdelivers, toggled_between _ _ _ _ false true, ?_⟩
  have hv : (Sample.linking false false).handler (some (.obj [])) ≠ .ok none := fun h => by cases h
  rw [replyTo_lost rfl rfl rfl hdelivers hv]
  rintro (⟨rows, ⟨on, hflag, hon⟩, hends⟩ | ⟨rows, ⟨off, hflag, hoff⟩, hends⟩)
  · have hreply := Except.ok.inj (ends_handleRequest.1 hends).1
    rw [hflag, replyTo_encrypted hon hon rfl hdelivers rfl] at hreply
    cases (Reply.mk.inj hreply).2
  · have hreply := Except.ok.inj (ends_handleRequest.1 hends).1
    rw [hflag, @replyTo_enveloped _ _ _ _ off off hoff (.inl hoff) (Sample.done false) rfl nofun] at hreply
    have hparse := congrArg Text.Json.parse (Sent.json.inj (Reply.mk.inj hreply).2)
    have hempty : enveloped (.str []) = .obj [(ofString "status", .bool true),
      (ofString "message", .str (ofString "Success"))] := rfl
    rw [← hempty, Text.Json.parse_stringify (wellFormed_enveloped (.str [])),
      Text.Json.parse_stringify (wellFormed_enveloped (Sample.done false).wellFormed)] at hparse
    have hmessage := congrArg (Text.Json.get? · (ofString "message")) (Option.some.inj hparse)
    rw [Text.Json.get?_copy, Text.Json.get?_copy, get?_enveloped, get?_enveloped, if_neg names_ne.2.2.1, if_pos rfl,
      if_neg names_ne.2.2.1, if_pos rfl] at hmessage
    have htext : ofString "Success" = ofString "Device linked" := Text.Json.str.inj (Option.some.inj hmessage)
    exact absurd htext (by decide +kernel)

end Damaru
