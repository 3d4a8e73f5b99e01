import Damaru.Async.Post
import Damaru.Services.Apks

/-!
# What an upload leaves published

`uploadApk` empties the table before it reads the fields of the body. An upload
that fails from there on leaves nothing published.
-/

namespace Damaru

open Async

namespace ApkService

variable {t t' : ApkTable} {version force : JsVal} {file : Bool}

/-- The table holds the version of the body and no other, and that is the one
that is handed out. -/
def Published (config : ApkConfig) (version : JsVal) (t : ApkTable) : Prop :=
  ∃ apk text, t.rows = [apk] ∧ textOf version = .ok text ∧ parseInt text = some apk.version ∧
    ∀ r t', (getLatestApkPath config).Ends t r t' ↔
      r = .ok { apk with link := getApkPath config ++ "/" ++ apk.link } ∧ t' = t

/-- An upload that is rejected changes nothing, and one that is not publishes
the version of its body. -/
def KeepsPublished (config : ApkConfig) (t : ApkTable) (version force : JsVal) (file : Bool) : Prop :=
  (uploadApk version force file).Post t fun r t' =>
    (∀ e, r = .error e → t' = t) ∧ ∀ m, r = .ok m → Published config version t'

/-- The fields of the body have texts, and the version's begins with a number
that the column holds. -/
def storable (version force : JsVal) : Bool :=
  match textOf version, textOf force with
  | .ok v, .ok _ => (parseInt v).any isInt4
  | _, _ => false

theorem forkFree_uploadApk : (uploadApk version force file).ForkFree := by
  unfold uploadApk
  cases file with
  | false => trivial
  | true =>
    refine .bind (Prog.forkFree_op) fun _ => ?_
    refine .bind (Prog.forkFree_ofExcept _) fun _ => ?_
    refine .bind (Prog.forkFree_ofExcept _) fun _ => ?_
    exact .bind Prog.forkFree_op fun _ => trivial

/-- The latest version of a table with one row. -/
theorem getLatestApkPath_ends {config : ApkConfig} {apk : Apk} (h : t.rows = [apk])
    {r : Except Rejection Apk} : (getLatestApkPath config).Ends t r t' ↔
      r = .ok { apk with link := getApkPath config ++ "/" ++ apk.link } ∧ t' = t := by
  unfold getLatestApkPath ApkRepository.findLatest
  rw [Prog.ends_bind]
  simp only [Prog.ends_op, h, List.mergeSort_singleton, List.take_succ_cons, List.take_nil,
    Prod.mk.injEq]
  constructor
  · rintro (⟨e, rfl, -, he, -⟩ | ⟨rows, u, ⟨-, hrows, rfl⟩, hend⟩)
    · cases he
    · cases hrows
      exact Prog.ends_pure.1 hend
  · rintro ⟨rfl, rfl⟩
    exact .inr ⟨[apk], t', ⟨(), rfl, rfl⟩, .pure _ _⟩

/-- The row that an upload inserts is the only one. -/
theorem insert_post {n : Int} {f : Bool} {link : String} (h : t.rows = []) :
    (ApkRepository.insert (some n) f link).Post t fun r t' =>
      if isInt4 n = true then r = .ok () ∧ t'.rows = [⟨n, f, link⟩]
      else (∃ e, r = .error e) ∧ t'.rows = [] := by
  refine .op fun _ => ?_
  have hkeys : ((t.rows ++ [(⟨n, f, link⟩ : Apk)]).map Apk.version).Nodup := by simp [h]
  by_cases hn : isInt4 n = true
  · simp [hn, h]
  · simp [hn, h]

/-- With a file, the fields of the body alone decide whether a version is
published or none is. -/
theorem uploadApk_post : (uploadApk version force true).Post t fun r t' =>
    if storable version force = true then (∃ m, r = .ok m) ∧ ∃ v f n,
      textOf version = .ok v ∧ textOf force = .ok f ∧ parseInt v = some n ∧
      t'.rows = [⟨n, f = "true", "damaru.apk"⟩]
    else (∃ e, r = .error e) ∧ t'.rows = [] := by
  unfold uploadApk
  refine .bind (.op fun _ => ?_)
  refine .bind (fun r u hend => ?_)
  obtain ⟨rfl, rfl⟩ := Prog.ends_ofExcept.1 hend
  cases hv : textOf version with
  | error e => simp [storable, hv]
  | ok v =>
    refine .bind (fun r u hend => ?_)
    obtain ⟨rfl, rfl⟩ := Prog.ends_ofExcept.1 hend
    cases hf : textOf force with
    | error e => simp [storable, hv, hf]
    | ok f =>
      cases hn : parseInt v with
      | none =>
        refine .bind (.op fun _ => ?_)
        simp [storable, hv, hf, hn]
      | some n =>
        refine .bind ((insert_post rfl).mono fun r u hu => ?_)
        by_cases hint : isInt4 n = true
        · rw [if_pos hint] at hu
          obtain ⟨rfl, hrows⟩ := hu
          exact .pure (by simp [storable, hv, hf, hn, hint, hrows])
        · rw [if_neg hint] at hu
          obtain ⟨⟨e, rfl⟩, hrows⟩ := hu
          simp [storable, hv, hf, hn, hint, hrows]

/-- With a file, and fields that cannot be stored, nothing is published after
the rejection. -/
theorem uploadApk_fails (t : ApkTable) (h : ¬ storable version force = true) :
    ∃ e t', (uploadApk version force true).Ends t (.error e) t' ∧ t'.rows = [] := by
  obtain ⟨r, t', hend⟩ := (@forkFree_uploadApk version force true).exists_ends t
  have hpost := uploadApk_post r t' hend
  simp only [if_neg h] at hpost
  obtain ⟨⟨e, rfl⟩, hrows⟩ := hpost
  exact ⟨e, t', hend, hrows⟩

/-- An upload keeps what is published, or publishes its own version, if it
brings no file, if nothing is published, or if its fields can be stored. -/
theorem uploadApk_keeps_iff (config : ApkConfig) (t : ApkTable) (version force : JsVal)
    (file : Bool) : KeepsPublished config t version force file ↔
      file = false ∨ t.rows = [] ∨ storable version force = true := by
  cases file with
  | false =>
    refine iff_of_true (.throw ⟨fun _ _ => rfl, fun m hm => ?_⟩) (.inl rfl)
    cases hm
  | true =>
    constructor
    · intro h
      by_contra hnot
      simp only [reduceCtorEq, false_or, not_or] at hnot
      obtain ⟨e, t', hend, hrows⟩ := uploadApk_fails t hnot.2
      rw [(h _ t' hend).1 e rfl] at hrows
      exact hnot.1 hrows
    · intro h
      refine uploadApk_post.mono fun r t' hpost => ?_
      by_cases hs : storable version force = true
      · rw [if_pos hs] at hpost
        obtain ⟨⟨m, rfl⟩, v, f, n, hv, -, hn, hrows⟩ := hpost
        refine ⟨fun e he => (by cases he), fun _ _ => ?_⟩
        exact ⟨_, v, hrows, hv, hn, fun _ _ => getLatestApkPath_ends hrows⟩
      · rw [if_neg hs] at hpost
        obtain ⟨⟨e, rfl⟩, hrows⟩ := hpost
        refine ⟨fun _ _ => ApkTable.ext' ?_, fun m hm => (by cases hm)⟩
        rcases h with h | h | h
        · cases h
        · rw [hrows, h]
        · exact absurd h hs

/-- An upload of a version that is no number unpublishes the one there was. -/
theorem uploadApk_unpublishes : ¬ KeepsPublished ⟨none, none⟩ ⟨[⟨1, false, "damaru.apk"⟩], by decide⟩
    (some (.str "v2")) (some (.str "false")) true := by
  intro h
  have hfields : ¬ storable (some (.str "v2")) (some (.str "false")) = true := by decide +kernel
  obtain ⟨e, t', hend, hrows⟩ := uploadApk_fails _ hfields
  rw [(h _ t' hend).1 e rfl] at hrows
  cases hrows

end ApkService

end Damaru
