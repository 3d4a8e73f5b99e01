import Damaru.Verify.Exclusivity

/-!
# One step of turns that keep apart

Every atomic step of one of the three requests keeps the invariant, as long as
the turn it is taken in conflicts with none that is open. First what a step of one
kind does to the invariant (`Inv.quiet`, `Inv.register`, `Inv.makeFree`,
`Inv.insert`, `Inv.shrink`), then one lemma for each step that has something
to say, and last `Inv.step` for all of them.
-/

namespace Damaru

open Async Table

namespace Phase

/-! ## Kinds of steps -/

section Step

variable {others : List Thread} {k : Ticket} {q : Phase} {qs : List Phase} {s s' : Server}

/-- The threads after a step. -/
abbrev after (k : Ticket) (qs : List Phase) (others : List Thread) : List Thread :=
  qs.map (fun q => (k, q)) ++ others

theorem mem_after {th : Thread} :
    th ∈ after k qs others ↔ (th.1 = k ∧ th.2 ∈ qs) ∨ th ∈ others := by
  rw [List.mem_append, List.mem_map]
  refine or_congr_left ⟨?_, ?_⟩
  · intro ⟨q, hq, h⟩
    subst h
    exact ⟨rfl, hq⟩
  · intro ⟨h1, h2⟩
    exact ⟨th.2, h2, by rw [← h1]⟩

theorem Freed.after {d : String} (h : Freed ((k, q) :: others) s d) {k' : Ticket}
    (hstate : ∀ e' ∈ s'.tables.emulators, e'.device_id = d → ∃ e ∈ s.tables.emulators,
      e.device_id = d ∧ (e.state = .AVAILABLE → e'.state = .AVAILABLE))
    (hfrees : Frees q d → ∃ q' ∈ qs, Frees q' d) : Freed (after k' qs others) s' d := by
  intro e' he' hd'
  obtain ⟨e, he, hd, hst⟩ := hstate e' he' hd'
  rcases h e he hd with h | ⟨th, hth, hf⟩
  · exact .inl (hst h)
  · refine .inr ?_
    rcases List.mem_cons.1 hth with rfl | hth
    · obtain ⟨q', hq', hf'⟩ := hfrees hf
      exact ⟨(k', q'), mem_after.2 (.inl ⟨rfl, hq'⟩), hf'⟩
    · exact ⟨th, mem_after.2 (.inr hth), hf⟩

theorem Taken.after {d : String} {l : UserEmulators} (h : Taken ((k, q) :: others) d l) {k' : Ticket}
    (htakes : Takes k q d l → ∃ q' ∈ qs, Takes k' q' d l) : Taken (after k' qs others) d l := by
  obtain ⟨th, hth, ht⟩ := h
  rcases List.mem_cons.1 hth with rfl | hth
  · obtain ⟨q', hq', ht'⟩ := htakes ht
    exact ⟨(k', q'), mem_after.2 (.inl ⟨rfl, hq'⟩), ht'⟩
  · exact ⟨th, mem_after.2 (.inr hth), ht⟩

/-- What a thread relies on is not disturbed by a step of another one that
ends links, or begins one the thread has nothing to do with. -/
theorem Holds.undisturbed {ths ths' : List Thread} (ho : Holds ths s k q) (hfit : Fits k q)
    (hlinks : ∀ l ∈ s'.tables.userEmulators, l.active = true → l ∈ s.tables.userEmulators ∨
      ((∀ d, l.device = some d → ¬ k.touches d) ∧ ∀ u fp, k = .remove u fp → l.user ≠ some u))
    (howned : ∀ r ∈ s'.tables.userEmulators,
      (∃ r₀ ∈ s.tables.userEmulators, r₀.id = r.id ∧ r₀.device = r.device) ∨ r.id ∉ s.used)
    (hused : s.used ⊆ s'.used)
    (hfreed : ∀ d, k.touches d → Freed ths s d → Freed ths' s' d)
    (htaken : ∀ d l, k.touches d → l ∈ s'.tables.active d → Taken ths d l → Taken ths' d l)
    (hkept : ∀ d, k.isLink → k.touches d → s.tables.active d ≠ [] →
      s'.tables.active d ≠ []) : Holds ths' s' k q := by
  have hactive : ∀ d, k.touches d → ∀ l ∈ s'.tables.active d, l ∈ s.tables.active d := by
    intro d hd l hl
    obtain ⟨hmem, hdev, hact⟩ := Tables.mem_active.1 hl
    rcases hlinks l hmem hact with h | ⟨h, -⟩
    · exact Tables.mem_active.2 ⟨h, hdev, hact⟩
    · exact absurd hd (h d hdev)
  have hnil : ∀ d, k.touches d → s.tables.active d = [] → s'.tables.active d = [] := by
    intro d hd h
    refine List.eq_nil_iff_forall_not_mem.2 fun l hl => ?_
    have := hactive d hd l hl
    rw [h] at this
    cases this
  cases q with
  | linkInsert u d ds => exact hnil d (touches_of_link hfit).1 ho
  | linkRoot u d ds l =>
    obtain ⟨ht, hl⟩ := touches_of_link hfit
    exact hkept d hl ht ho
  | linkAssign u d ds l a =>
    obtain ⟨ht, hl⟩ := touches_of_link hfit
    exact hkept d hl ht ho
  | linkState u d ds =>
    obtain ⟨ht, hl⟩ := touches_of_link hfit
    exact hkept d hl ht ho
  | unlinkMark u d ds l =>
    obtain ⟨hid, hu, hdev⟩ := ho
    refine ⟨fun a ha => hid a (hactive d (touches_of_unlink hfit) a ha), hused hu, ?_⟩
    intro r hr hrl
    rcases howned r hr with ⟨r₀, hr₀, he, hd⟩ | hnew
    · rw [← hd]
      exact hdev r₀ hr₀ (he.trans hrl)
    · exact absurd (hrl ▸ hu) hnew
  | unlinkAssign u d ds l => exact hnil d (touches_of_unlink hfit) ho
  | unlinkState u d ds => exact hnil d (touches_of_unlink hfit) ho
  | removeLog u devices =>
    obtain ⟨fp, rfl, hfp⟩ := hfit
    refine ⟨fun l hl ha hu => ?_, fun d hd l hl => ?_⟩
    · rcases hlinks l hl ha with h | ⟨-, h⟩
      · exact ho.1 l h ha hu
      · exact absurd hu (h u _ rfl)
    · exact ho.2 d hd l (hactive d ⟨fp, rfl, hfp d hd⟩ l hl)
  | removeDelete u =>
    obtain ⟨-, fp, rfl⟩ := hfit
    intro l hl ha hu
    rcases hlinks l hl ha with h | ⟨-, h⟩
    · obtain ⟨d, hd, ht, hf⟩ := ho l h ha hu
      exact ⟨d, hd, ht, hfreed d ht hf⟩
    · exact absurd hu (h u _ rfl)
  | makeAvailable d =>
    obtain ⟨u, fp, rfl, hd⟩ := hfit
    intro l hl
    exact htaken d l ⟨fp, rfl, hd⟩ hl (ho l (hactive d ⟨fp, rfl, hd⟩ l hl))
  | linkCheck u d ds => trivial
  | unlinkFind u d ds => trivial
  | removeFind u => trivial
  | finished e => trivial

/-- A step of another thread that writes no links disturbs no more than it frees
and takes. -/
theorem Holds.of_links_eq {ths ths' : List Thread} (ho : Holds ths s k q) (hfit : Fits k q)
    (hl : s'.tables.userEmulators = s.tables.userEmulators) (hused : s.used ⊆ s'.used)
    (hfreed : ∀ d, k.touches d → Freed ths s d → Freed ths' s' d)
    (htaken : ∀ d l, k.touches d → Taken ths d l → Taken ths' d l) : Holds ths' s' k q := by
  refine ho.undisturbed hfit (fun l hmem _ => .inl (hl ▸ hmem)) (fun r hr => .inl ⟨r, hl ▸ hr, rfl, rfl⟩) hused
    hfreed (fun d l ht _ => htaken d l ht) fun d _ _ hne => ?_
  rw [Tables.active_congr hl]
  exact hne

/-- The rows after the state of a device is set. -/
theorem row_of_set {d : String} {st : EmulatorState}
    (he : s'.tables.emulators = updateWhere (fun e => decide (e.device_id = d)) (fun e => { e with state := st })
      s.tables.emulators) : ∀ e ∈ s'.tables.emulators,
      (e.device_id = d ∧ e.state = st) ∨ (e ∈ s.tables.emulators ∧ e.device_id ≠ d) := by
  intro e hmem
  rw [he] at hmem
  rcases mem_updateWhere.1 hmem with ⟨e', -, hp, rfl⟩ | ⟨hmem, hp⟩
  · exact .inl ⟨of_decide_eq_true hp, rfl⟩
  · exact .inr ⟨hmem, of_decide_eq_false hp⟩

/-- The threads that a thread becomes take its place. -/
theorem Inv.advance (h : Inv ((k, q) :: others) s) {k' : Ticket}
    (hapart : ∀ o ∈ others, InTurn o → ¬ k'.Conflict o.1)
    (hfits : ∀ q' ∈ qs, Fits k' q') (hself : qs.length ≤ 1 ∨ ¬ k'.isLink)
    (hlinks : ∀ d, (s'.tables.active d).length ≤ 1)
    (hstates : ∀ e ∈ s'.tables.emulators, e.state = .REGISTERED ∨ e.state = .AVAILABLE)
    (hfree : ∀ d, s'.tables.active d = [] → Freed (after k' qs others) s' d)
    (htaken : ∀ e ∈ s'.tables.emulators, e.state = .AVAILABLE →
      ∀ l ∈ s'.tables.active e.device_id, Taken (after k' qs others) e.device_id l)
    (hnew : ∀ q' ∈ qs, Holds (after k' qs others) s' k' q')
    (hothers : ∀ o ∈ others, InTurn o → Holds (after k' qs others) s' o.1 o.2) :
    Inv (after k' qs others) s' where
  fits th hth := by
    rcases mem_after.1 hth with ⟨hk, hq⟩ | hth
    · rw [hk]
      exact hfits th.2 hq
    · exact h.fits th (List.mem_cons_of_mem _ hth)
  apart := by
    refine List.pairwise_append.2 ⟨?_, (List.pairwise_cons.1 h.apart).2, ?_⟩
    · rw [List.pairwise_map]
      rcases hself with hlen | hlink
      · match qs, hlen with
        | [], _ => exact .nil
        | [_], _ => exact List.pairwise_singleton _ _
      · exact List.pairwise_of_forall fun _ _ _ _ hc => hc.links.elim hlink hlink
    · intro a ha o ho _ hin hc
      obtain ⟨q', -, rfl⟩ := List.mem_map.1 ha
      exact hapart o ho hin hc
  links := hlinks
  states := hstates
  free := hfree
  taken := htaken
  holds th hth := by
    rcases mem_after.1 hth with ⟨hk, hq⟩ | hth
    · rw [hk]
      exact hnew th.2 hq
    · by_cases hin : InTurn th
      · exact hothers th hth hin
      · exact .of_not_inTurn (h.fits th (List.mem_cons_of_mem _ hth)) hin

-- `kw` is the label during the step, `k'` the one after it
variable (h : Inv ((k, q) :: others) s) {kw k' : Ticket}
  (hapart : ∀ o ∈ others, InTurn o → ¬ kw.Conflict o.1) (hnext : ∀ j, k'.Conflict j → kw.Conflict j)
  (hfits : ∀ q' ∈ qs, Fits k' q') (hself : qs.length ≤ 1 ∨ ¬ k'.isLink)

include h hapart hnext hfits hself

/-- A step that writes neither links nor states. -/
theorem Inv.quiet (he : s'.tables.emulators = s.tables.emulators)
    (hl : s'.tables.userEmulators = s.tables.userEmulators) (hused : s.used ⊆ s'.used)
    (hfrees : ∀ d, Frees q d → ∃ q' ∈ qs, Frees q' d)
    (htakes : ∀ d l, Takes k q d l → ∃ q' ∈ qs, Takes k' q' d l)
    (hnew : ∀ q' ∈ qs, Holds (after k' qs others) s' k' q') : Inv (after k' qs others) s' := by
  have hactive := Tables.active_congr hl
  have hfreed : ∀ d, Freed ((k, q) :: others) s d → Freed (after k' qs others) s' d :=
    fun d hd => hd.after (fun e' he' hd' => ⟨e', he ▸ he', hd', fun h => h⟩) (hfrees d)
  refine h.advance (fun o ho hin hc => hapart o ho hin (hnext _ hc)) hfits hself ?_ ?_ ?_ ?_ hnew ?_
  · intro d
    rw [hactive]
    exact h.links d
  · rw [he]
    exact h.states
  · intro d hd
    exact hfreed d (h.free d (by rw [← hactive, hd]))
  · rw [he]
    intro e hmem hst l hl
    rw [hactive] at hl
    exact (h.taken e hmem hst l hl).after (htakes _ l)
  · intro o ho _
    exact (h.holds o (List.mem_cons_of_mem _ ho)).of_links_eq (h.fits o (List.mem_cons_of_mem _ ho)) hl hused
      (fun d _ => hfreed d) fun d l _ ht => ht.after (htakes d l)

omit h hnext hfits hself in
/-- Where one of two requests links, they touch different devices. -/
theorem ne_of_touches {o : Thread} (ho : o ∈ others) (hin : InTurn o) {d d' : String}
    (hlink : kw.isLink ∨ o.1.isLink) (hd : kw.touches d) (hd' : o.1.touches d') :
    d' ≠ d := by
  intro heq
  subst heq
  have ⟨_, hopen, _⟩ := hd
  exact hapart o ho hin ⟨by rw [hopen]; rfl, hin.1, hlink, .inl ⟨d', hd, hd'⟩⟩

/-- A device becomes REGISTERED, by the request that has linked it. -/
theorem Inv.register {d : String} (hlink : kw.isLink) (hd : kw.touches d)
    (he : s'.tables.emulators = updateWhere (fun e => decide (e.device_id = d))
      (fun e => { e with state := .REGISTERED }) s.tables.emulators)
    (hl : s'.tables.userEmulators = s.tables.userEmulators) (hused : s.used ⊆ s'.used)
    (hne : s.tables.active d ≠ []) (hfrees : ∀ d', ¬ Frees q d')
    (htakes : ∀ d' l, Takes k q d' l → d' = d)
    (hnew : ∀ q' ∈ qs, Holds (after k' qs others) s' k' q') : Inv (after k' qs others) s' := by
  have hactive := Tables.active_congr hl
  have hrow := row_of_set he
  have hfreed : ∀ d', d' ≠ d → Freed ((k, q) :: others) s d' → Freed (after k' qs others) s' d' := by
    intro d' hdd hf
    refine hf.after (fun e' he' hd' => ?_) fun h => absurd h (hfrees d')
    rcases hrow e' he' with ⟨hid, -⟩ | ⟨hmem, -⟩
    · exact absurd (hd'.symm.trans hid) hdd
    · exact ⟨e', hmem, hd', fun h => h⟩
  refine h.advance (fun o ho hin hc => hapart o ho hin (hnext _ hc)) hfits hself ?_ ?_ ?_ ?_ hnew ?_
  · intro d'
    rw [hactive]
    exact h.links d'
  · intro e' he'
    rcases hrow e' he' with ⟨-, hst⟩ | ⟨hmem, -⟩
    · exact .inl hst
    · exact h.states e' hmem
  · intro d' hnil
    rw [hactive] at hnil
    have hdd : d' ≠ d := fun heq => hne (heq ▸ hnil)
    exact hfreed d' hdd (h.free d' hnil)
  · intro e' he' hst l hlm
    rcases hrow e' he' with ⟨-, hst'⟩ | ⟨hmem, hid⟩
    · rw [hst'] at hst
      cases hst
    · rw [hactive] at hlm
      exact (h.taken e' hmem hst l hlm).after fun ht => absurd (htakes _ l ht) hid
  · intro o ho hin
    have hdd : ∀ d', o.1.touches d' → d' ≠ d :=
      fun d' hd' => ne_of_touches hapart ho hin (.inl hlink) hd hd'
    exact (h.holds o (List.mem_cons_of_mem _ ho)).of_links_eq (h.fits o (List.mem_cons_of_mem _ ho)) hl hused
      (fun d' ht => hfreed d' (hdd d' ht)) fun d' l ht hk => hk.after fun htk => absurd (htakes d' l htk) (hdd d' ht)

/-- A device becomes AVAILABLE, by a request that has ended its link or is
about to. -/
theorem Inv.makeFree {d : String}
    (he : s'.tables.emulators = updateWhere (fun e => decide (e.device_id = d))
      (fun e => { e with state := .AVAILABLE }) s.tables.emulators)
    (hl : s'.tables.userEmulators = s.tables.userEmulators) (hused : s.used ⊆ s'.used)
    (hd : ∀ l ∈ s.tables.active d, Taken ((k, q) :: others) d l)
    (hfrees : ∀ d', Frees q d' → d' = d) (htakes : ∀ d' l, ¬ Takes k q d' l)
    (hnew : ∀ q' ∈ qs, Holds (after k' qs others) s' k' q') : Inv (after k' qs others) s' := by
  have hactive := Tables.active_congr hl
  have hrow := row_of_set he
  have hfreed : ∀ d', Freed ((k, q) :: others) s d' → Freed (after k' qs others) s' d' := by
    intro d' hf
    by_cases hdd : d' = d
    · intro e' he' hid
      rcases hrow e' he' with ⟨-, hst⟩ | ⟨-, hne⟩
      · exact .inl hst
      · exact absurd (hid.trans hdd) hne
    · refine hf.after (fun e' he' hid => ?_) fun h => absurd (hfrees d' h) hdd
      rcases hrow e' he' with ⟨hid', -⟩ | ⟨hmem, -⟩
      · exact absurd (hid.symm.trans hid') hdd
      · exact ⟨e', hmem, hid, fun h => h⟩
  have htaken : ∀ d' l, Taken ((k, q) :: others) d' l → Taken (after k' qs others) d' l :=
    fun d' l ht => ht.after fun h => absurd h (htakes d' l)
  refine h.advance (fun o ho hin hc => hapart o ho hin (hnext _ hc)) hfits hself ?_ ?_ ?_ ?_ hnew ?_
  · intro d'
    rw [hactive]
    exact h.links d'
  · intro e' he'
    rcases hrow e' he' with ⟨-, hst⟩ | ⟨hmem, -⟩
    · exact .inr hst
    · exact h.states e' hmem
  · intro d' hnil
    rw [hactive] at hnil
    exact hfreed d' (h.free d' hnil)
  · intro e' he' hst l hlm
    rw [hactive] at hlm
    rcases hrow e' he' with ⟨hid, -⟩ | ⟨hmem, -⟩
    · rw [hid] at hlm ⊢
      exact htaken d l (hd l hlm)
    · exact htaken _ l (h.taken e' hmem hst l hlm)
  · intro o ho _
    exact (h.holds o (List.mem_cons_of_mem _ ho)).of_links_eq (h.fits o (List.mem_cons_of_mem _ ho)) hl hused
      (fun d' _ => hfreed d') fun d' l _ => htaken d' l

/-- A link begins on a device that has none in force. -/
theorem Inv.insert {u d : String} {l : UserEmulators} (hd : kw.touches d)
    (hlink : kw.isLink) (hmeets : ∀ fp, kw.meets (.remove u fp)) (hu : l.user = some u) (hdev : l.device = some d)
    (hact : l.active = true) (hid : l.id ∉ s.used)
    (he : s'.tables.emulators = s.tables.emulators)
    (hl : s'.tables.userEmulators = s.tables.userEmulators ++ [l]) (hused : s.used ⊆ s'.used)
    (hnil : s.tables.active d = []) (hfrees : ∀ d', ¬ Frees q d')
    (htakes : ∀ d' l, ¬ Takes k q d' l) (hnow : ∀ l, ∃ q' ∈ qs, Takes k' q' d l)
    (hnew : s'.tables.active d ≠ [] → ∀ q' ∈ qs, Holds (after k' qs others) s' k' q') :
    Inv (after k' qs others) s' := by
  have hactive := Tables.active_append hact hdev hl
  have hfreed : ∀ d', Freed ((k, q) :: others) s d' → Freed (after k' qs others) s' d' :=
    fun d' hf => hf.after (fun e' he' hid => ⟨e', he ▸ he', hid, fun h => h⟩)
      fun h => absurd h (hfrees d')
  have htaken : ∀ d' l, Taken ((k, q) :: others) d' l → Taken (after k' qs others) d' l :=
    fun d' l ht => ht.after fun h => absurd h (htakes d' l)
  have hd_active : s'.tables.active d = [l] := by
    rw [hactive, if_pos rfl, hnil]
    rfl
  refine h.advance (fun o ho hin hc => hapart o ho hin (hnext _ hc)) hfits hself ?_ ?_ ?_ ?_ (hnew (by rw [hd_active]; simp)) ?_
  · intro d'
    by_cases hdd : d' = d
    · rw [hdd, hd_active]
      exact Nat.le_refl 1
    · rw [hactive, if_neg hdd]
      exact h.links d'
  · rw [he]
    exact h.states
  · intro d' hn
    by_cases hdd : d' = d
    · rw [hdd, hd_active] at hn
      cases hn
    · rw [hactive, if_neg hdd] at hn
      exact hfreed d' (h.free d' hn)
  · rw [he]
    intro e hmem hst r hr
    by_cases hdd : e.device_id = d
    · obtain ⟨q', hq', ht⟩ := hnow r
      exact ⟨(k', q'), mem_after.2 (.inl ⟨rfl, hq'⟩), hdd ▸ ht⟩
    · rw [hactive, if_neg hdd] at hr
      exact htaken _ r (h.taken e hmem hst r hr)
  · intro o ho hin
    have hdd : ∀ d', o.1.touches d' → d' ≠ d :=
      fun d' hd' => ne_of_touches hapart ho hin (.inl hlink) hd hd'
    refine (h.holds o (List.mem_cons_of_mem _ ho)).undisturbed
      (h.fits o (List.mem_cons_of_mem _ ho)) ?_ ?_ hused (fun d' _ => hfreed d')
      (fun d' r _ _ => htaken d' r) ?_
    · intro r hr _
      rw [hl, List.mem_append, List.mem_singleton] at hr
      rcases hr with hr | rfl
      · exact .inl hr
      · refine .inr ⟨fun d' hd' ht => hdd d' ht (Option.some.inj (hd'.symm.trans hdev)), ?_⟩
        intro v fp hv huv
        have hvu : v = u := Option.some.inj (huv.symm.trans hu)
        subst hvu
        have ⟨_, hopen, _⟩ := hd
        exact hapart o ho hin ⟨by rw [hopen]; rfl, hin.1, .inl hlink, .inr (hv ▸ hmeets fp)⟩
    · intro r hr
      rw [hl, List.mem_append, List.mem_singleton] at hr
      rcases hr with hr | rfl
      · exact .inl ⟨r, hr, rfl, rfl⟩
      · exact .inr hid
    · intro d' _ ht hn
      rw [hactive, if_neg (hdd d' ht)]
      exact hn

/-- Links end. -/
theorem Inv.shrink (he : s'.tables.emulators = s.tables.emulators)
    (hsub : ∀ l ∈ s'.tables.userEmulators, l.active = true → l ∈ s.tables.userEmulators)
    (howned : ∀ r ∈ s'.tables.userEmulators, ∃ r₀ ∈ s.tables.userEmulators,
      r₀.id = r.id ∧ r₀.device = r.device) (hused : s.used ⊆ s'.used)
    (hactive : ∀ d, (s'.tables.active d).Sublist (s.tables.active d))
    (hended : ∀ d, s'.tables.active d = [] → s.tables.active d ≠ [] →
      Freed (after k' qs others) s' d)
    (hkept : ∀ o ∈ others, InTurn o → o.1.isLink → ∀ d, o.1.touches d →
      s.tables.active d ≠ [] → s'.tables.active d ≠ [])
    (hfrees : ∀ d, ¬ Frees q d) (htakes : ∀ d l, Takes k q d l → l ∉ s'.tables.active d)
    (hnew : ∀ q' ∈ qs, Holds (after k' qs others) s' k' q') : Inv (after k' qs others) s' := by
  have hfreed : ∀ d, Freed ((k, q) :: others) s d → Freed (after k' qs others) s' d :=
    fun d hf => hf.after (fun e' he' hid => ⟨e', he ▸ he', hid, fun h => h⟩)
      fun h => absurd h (hfrees d)
  have htaken : ∀ d l, l ∈ s'.tables.active d → Taken ((k, q) :: others) d l →
      Taken (after k' qs others) d l :=
    fun d l hl ht => ht.after fun h => absurd hl (htakes d l h)
  refine h.advance (fun o ho hin hc => hapart o ho hin (hnext _ hc)) hfits hself ?_ ?_ ?_ ?_ hnew ?_
  · intro d
    exact (hactive d).length_le.trans (h.links d)
  · rw [he]
    exact h.states
  · intro d hn
    by_cases hnil : s.tables.active d = []
    · exact hfreed d (h.free d hnil)
    · exact hended d hn hnil
  · rw [he]
    intro e hmem hst l hl
    exact htaken _ l hl (h.taken e hmem hst l ((hactive _).subset hl))
  · intro o ho hin
    refine (h.holds o (List.mem_cons_of_mem _ ho)).undisturbed
      (h.fits o (List.mem_cons_of_mem _ ho)) (fun l hl ha => .inl (hsub l hl ha))
      (fun r hr => .inl (howned r hr)) hused (fun d _ => hfreed d)
      (fun d l _ hl => htaken d l hl) fun d hlink ht => hkept o ho hin hlink d ht

end Step

theorem holds_linkLoop {ths : List Thread} {s : Server} {k : Ticket} (u : String) :
    ∀ ds, Holds ths s k (linkLoop u ds)
  | [] => trivial
  | _ :: _ => trivial

theorem holds_unlinkLoop {ths : List Thread} {s : Server} {k : Ticket} (u : String) :
    ∀ ds, Holds ths s k (unlinkLoop u ds)
  | [] => trivial
  | _ :: _ => trivial

theorem fits_linkLoop (u : String) : ∀ ds, Fits (.link u ds 0) (linkLoop u ds)
  | [] => trivial
  | _ :: _ => rfl

theorem fits_unlinkLoop (u : String) : ∀ ds, Fits (.unlink u ds 0) (unlinkLoop u ds)
  | [] => trivial
  | _ :: _ => rfl

/-! ## Each step -/

/-- A property of the only phase that a thread becomes. -/
theorem only {P : Phase → Prop} {q : Phase} (h : P q) : ∀ q' ∈ [q], P q' := by
  intro q' hq'
  rw [List.mem_singleton.1 hq']
  exact h

theorem one_thread {k : Ticket} {q : Phase} : [q].length ≤ 1 ∨ ¬ k.isLink := .inl (Nat.le_refl 1)

section Each

variable {others : List Thread} {k : Ticket} {s s' : Server} {u d : String} {ds : List String}

/-- A device that is not REGISTERED has no link in force when a request that
links it finds it so: the thread that would be about to end the link, or to
write the state, would conflict with the request. -/
theorem Inv.checked (h : Inv ((k, linkCheck u d ds) :: others) s)
    (hapart : ∀ o ∈ others, InTurn o → ¬ (k.during s).Conflict o.1)
    (hfree : ∀ e ∈ s.tables.emulators, e.device_id = d → e.state ≠ .REGISTERED) :
    Inv (after (k.next s) [linkInsert u d ds] others) s := by
  have hk : k = .link u (d :: ds) 0 := h.fits _ List.mem_cons_self
  subst hk
  refine h.quiet hapart (fun _ => Ticket.during_conflict) (only rfl) one_thread rfl rfl
    (fun _ hx => hx) (fun _ hf => hf.elim) (fun _ _ hf => hf.elim) (only ?_)
  refine List.eq_nil_iff_forall_not_mem.2 fun l hl => ?_
  obtain ⟨e, he, hed⟩ := s.integrity.device_exists hl
  have hst : e.state = .AVAILABLE := (h.states e he).resolve_left (hfree e he hed)
  rw [← hed] at hl
  obtain ⟨th, hth, htakes⟩ := h.taken e he hst l hl
  rcases List.mem_cons.1 hth with rfl | hth
  · exact htakes
  · obtain ⟨hin, htouch⟩ := htakes.inTurn (h.fits th (List.mem_cons_of_mem _ hth))
    exact ne_of_touches hapart hth hin (.inl trivial) ⟨[d], rfl, List.mem_singleton.2 rfl⟩ htouch hed

theorem Inv.inserted (h : Inv ((k, linkInsert u d ds) :: others) s)
    (hapart : ∀ o ∈ others, InTurn o → ¬ (k.during s).Conflict o.1) {l : UserEmulators}
    (hu : l.user = some u) (hdev : l.device = some d) (hact : l.active = true) (hid : l.id ∉ s.used)
    (he : s'.tables.emulators = s.tables.emulators)
    (hl : s'.tables.userEmulators = s.tables.userEmulators ++ [l]) (hused : s.used ⊆ s'.used) :
    Inv (after (k.next s) [linkRoot u d ds l.id] others) s' := by
  have hk : k = .link u (d :: ds) 1 := h.fits _ List.mem_cons_self
  subst hk
  exact h.insert hapart (fun _ => Ticket.during_conflict) (only rfl) one_thread
    ⟨[d], rfl, List.mem_singleton.2 rfl⟩ trivial (fun _ => rfl) hu hdev hact hid he hl hused
    (h.holds _ List.mem_cons_self) (fun _ hf => hf) (fun _ _ hf => hf)
    (fun _ => ⟨_, List.mem_singleton.2 rfl, rfl⟩) (fun hne => only hne)

theorem Inv.registered (h : Inv ((k, linkState u d ds) :: others) s)
    (hapart : ∀ o ∈ others, InTurn o → ¬ (k.during s).Conflict o.1)
    (he : s'.tables.emulators = updateWhere (fun e => decide (e.device_id = d))
      (fun e => { e with state := .REGISTERED }) s.tables.emulators)
    (hl : s'.tables.userEmulators = s.tables.userEmulators) (hused : s.used ⊆ s'.used) :
    Inv (after (k.next s) [linkLoop u ds] others) s' := by
  have hk : k = .link u (d :: ds) 4 := h.fits _ List.mem_cons_self
  subst hk
  exact h.register hapart (fun _ => Ticket.during_conflict) (only (fits_linkLoop u ds)) one_thread
    trivial ⟨[d], rfl, List.mem_singleton.2 rfl⟩ he hl hused (h.holds _ List.mem_cons_self)
    (fun _ hf => hf) (fun _ _ hf => hf) (only (holds_linkLoop u ds))

theorem Inv.absent (h : Inv ((k, unlinkFind u d ds) :: others) s)
    (hapart : ∀ o ∈ others, InTurn o → ¬ (k.during s).Conflict o.1)
    (hnone : ∀ l ∈ s.tables.active d, l.user ≠ some u) :
    Inv (after (k.next s) [unlinkLoop u ds] others) s := by
  have hk : k = .unlink u (d :: ds) 0 := h.fits _ List.mem_cons_self
  subst hk
  have hnext : (Ticket.unlink u (d :: ds) 0).next s = .unlink u ds 0 :=
    if_pos (.inr ⟨rfl, hnone⟩)
  refine h.quiet hapart (fun _ => Ticket.during_conflict) (only ?_) one_thread rfl rfl
    (fun _ hx => hx) (fun _ hf => hf.elim) (fun _ _ hf => hf.elim) (only (holds_unlinkLoop u ds))
  rw [hnext]
  exact fits_unlinkLoop u ds

theorem Inv.found (h : Inv ((k, unlinkFind u d ds) :: others) s)
    (hapart : ∀ o ∈ others, InTurn o → ¬ (k.during s).Conflict o.1) {l : UserEmulators}
    (hl : l ∈ s.tables.active d) (hlu : l.user = some u) :
    Inv (after (k.next s) [unlinkMark u d ds l.id] others) s := by
  have hk : k = .unlink u (d :: ds) 0 := h.fits _ List.mem_cons_self
  subst hk
  have hnext : (Ticket.unlink u (d :: ds) 0).next s = .unlink u (d :: ds) 1 :=
    if_neg fun hor => hor.elim (fun h0 => by cases h0) fun hnone => hnone.2 l hl hlu
  refine h.quiet hapart (fun _ => Ticket.during_conflict) (only hnext) one_thread rfl rfl
    (fun _ hx => hx) (fun _ hf => hf.elim) (fun _ _ hf => hf.elim) (only ⟨?_, ?_, ?_⟩)
  · intro a ha
    rw [h.eq_of_active ha hl]
  · exact Server.mem_used_of_mem_ids (Tables.userEmulator_id_mem (Tables.mem_active.1 hl).1)
  · intro r hrmem hrl
    rw [Table.eq_of_key s.integrity.userEmulators hrmem (Tables.mem_active.1 hl).1 hrl]
    exact (Tables.mem_active.1 hl).2.1

theorem Inv.marked {l : String} (h : Inv ((k, unlinkMark u d ds l) :: others) s)
    (hapart : ∀ o ∈ others, InTurn o → ¬ (k.during s).Conflict o.1) {now : Date}
    (he : s'.tables.emulators = s.tables.emulators)
    (hl : s'.tables.userEmulators = updateWhere (fun r => decide (r.id = l))
      (fun r => { r with unlinked_at := some now }) s.tables.userEmulators)
    (hused : s.used ⊆ s'.used) : Inv (after (k.next s) [unlinkAssign u d ds l] others) s' := by
  have hk : k = .unlink u (d :: ds) 1 := h.fits _ List.mem_cons_self
  subst hk
  obtain ⟨hids, -, hdev⟩ := h.holds _ List.mem_cons_self
  have hactive := Tables.active_updateWhere_unlinked hl
  have hended : s'.tables.active d = [] := by
    rw [hactive, List.filter_eq_nil_iff]
    intro a ha
    simp [hids a ha]
  refine h.shrink hapart (fun _ => Ticket.during_conflict) (only rfl) one_thread he ?_ ?_ hused ?_ ?_ ?_ (fun _ hf => hf)
    (fun _ _ hf => hf.elim) (only hended)
  · intro r hr ha
    rw [hl] at hr
    rcases mem_updateWhere.1 hr with ⟨r₀, -, -, rfl⟩ | ⟨hr, -⟩
    · cases ha
    · exact hr
  · intro r hr
    rw [hl] at hr
    rcases mem_updateWhere.1 hr with ⟨r₀, hr₀, -, rfl⟩ | ⟨hr, -⟩
    · exact ⟨r₀, hr₀, rfl, rfl⟩
    · exact ⟨r, hr, rfl, rfl⟩
  · intro d'
    rw [hactive]
    exact List.filter_sublist
  · intro d' hnil hne
    obtain ⟨a, ha⟩ := List.exists_mem_of_ne_nil _ hne
    have had : a.id = l := by
      by_contra hne'
      rw [hactive, List.filter_eq_nil_iff] at hnil
      exact hnil a ha (by simp [hne'])
    have hdd : d' = d := by
      have hmem' := Tables.mem_active.1 ha
      exact Option.some.inj (hmem'.2.1.symm.trans (hdev a hmem'.1 had))
    exact fun e _ _ => .inr ⟨(_, _), mem_after.2 (.inl ⟨rfl, List.mem_singleton.2 rfl⟩), hdd⟩
  · intro o ho hin hlink d' ht hne
    have hdd : d' ≠ d := ne_of_touches hapart ho hin (.inr hlink)
      ⟨[d], rfl, List.mem_singleton.2 rfl⟩ ht
    obtain ⟨a, ha⟩ := List.exists_mem_of_ne_nil _ hne
    have hmem' := Tables.mem_active.1 ha
    refine List.ne_nil_of_mem (a := a) ?_
    rw [hactive, List.mem_filter]
    refine ⟨ha, ?_⟩
    rw [Bool.not_eq_true', decide_eq_false_iff_not]
    exact fun had => hdd (Option.some.inj (hmem'.2.1.symm.trans (hdev a hmem'.1 had)))

theorem Inv.listed {devices : List (Option String)} (h : Inv ((k, removeFind u) :: others) s)
    (hapart : ∀ o ∈ others, InTurn o → ¬ (k.during s).Conflict o.1)
    (hdevices : ∀ j, j ∈ devices ↔ ∃ l ∈ s.tables.userEmulators,
      l.user = some u ∧ l.active = true ∧ l.device = j) :
    Inv (after (k.next s) [removeLog u devices] others) s := by
  have hk : k = .remove u none := h.fits _ List.mem_cons_self
  subst hk
  refine h.quiet hapart (fun _ => Ticket.during_conflict) (only ⟨_, rfl, ?_⟩) one_thread rfl rfl (fun _ hx => hx) (fun _ hf => hf.elim)
    (fun _ _ hf => hf.elim) (only ⟨?_, ?_⟩)
  · intro d hd
    obtain ⟨l, hl, hu, ha, hld⟩ := (hdevices _).1 hd
    exact List.mem_filterMap.2 ⟨l, List.mem_filter.2 ⟨hl, by simp [hu, ha]⟩, hld⟩
  · exact fun l hl ha hu => (hdevices _).2 ⟨l, hl, hu, ha, rfl⟩
  · intro d hd l hl
    obtain ⟨l', hl', hu, ha, hld⟩ := (hdevices _).1 hd
    rw [h.eq_of_active hl (Tables.mem_active.2 ⟨hl', hld, ha⟩)]
    exact hu

theorem Inv.logged (h : Inv ((k, removeLog u (ds.map some)) :: others) s)
    (hapart : ∀ o ∈ others, InTurn o → ¬ (k.during s).Conflict o.1) (hne : u ≠ "")
    (he : s'.tables.emulators = s.tables.emulators)
    (hl : s'.tables.userEmulators = s.tables.userEmulators) (hused : s.used ⊆ s'.used) :
    Inv (after (k.next s) (removeDelete u :: (ds.map makeAvailable).reverse) others) s' := by
  obtain ⟨fp, rfl, hfp⟩ := h.fits _ List.mem_cons_self
  have hholds := h.holds _ List.mem_cons_self
  have hmem : ∀ d ∈ ds, makeAvailable d ∈ removeDelete u :: (ds.map makeAvailable).reverse := by
    intro d hd
    exact List.mem_cons_of_mem _ (List.mem_reverse.2 (List.mem_map_of_mem hd))
  have hchild : ∀ {P : Phase → Prop}, P (removeDelete u) → (∀ d ∈ ds, P (makeAvailable d)) →
      ∀ q' ∈ removeDelete u :: (ds.map makeAvailable).reverse, P q' := by
    intro P h1 h2 q' hq'
    rcases List.mem_cons.1 hq' with rfl | hq'
    · exact h1
    · obtain ⟨d, hd, rfl⟩ := List.mem_map.1 (List.mem_reverse.1 hq')
      exact h2 d hd
  have hactive := Tables.active_congr hl
  refine h.quiet hapart (fun _ => Ticket.during_conflict) (hchild ⟨hne, fp, rfl⟩ fun d hd => ⟨u, fp, rfl, ?_⟩) (.inr fun h => h) he hl
    hused (fun _ hf => hf.elim) (fun _ _ hf => hf.elim) (hchild ?_ fun d hd => ?_)
  · exact hfp d (List.mem_map_of_mem hd)
  · intro l hmem' ha hu
    obtain ⟨d, hd, hld⟩ := List.mem_map.1 (hholds.1 l (hl ▸ hmem') ha hu)
    refine ⟨d, hld.symm, ⟨fp, rfl, hfp d (List.mem_map_of_mem hd)⟩, fun e _ hed => .inr ?_⟩
    exact ⟨(_, makeAvailable d), mem_after.2 (.inl ⟨rfl, hmem d hd⟩), rfl⟩
  · intro l hl'
    rw [hactive] at hl'
    exact ⟨(_, removeDelete u), mem_after.2 (.inl ⟨rfl, List.mem_cons_self⟩),
      hholds.2 d (List.mem_map_of_mem hd) l hl', fp, rfl, hfp d (List.mem_map_of_mem hd)⟩

/-- Whatever link the deletion of a user ends, its device is AVAILABLE or about
to be. -/
theorem Inv.deleted (h : Inv ((k, removeDelete u) :: others) s)
    (hapart : ∀ o ∈ others, InTurn o → ¬ (k.during s).Conflict o.1)
    (he : s'.tables.emulators = s.tables.emulators)
    (hl : s'.tables.userEmulators = s.tables.userEmulators.filter fun l => l.user ≠ some u)
    (hused : s.used ⊆ s'.used) : Inv (after (k.next s) [finished none] others) s' := by
  obtain ⟨-, fp, rfl⟩ := h.fits _ List.mem_cons_self
  have hholds := h.holds _ List.mem_cons_self
  have hactive := Tables.active_filter hl
  have hgone : ∀ d, ∀ l ∈ s.tables.active d, l ∉ s'.tables.active d → l.user = some u := by
    intro d l hmem hnot
    by_contra hu
    rw [hactive, List.mem_filter] at hnot
    exact hnot ⟨hmem, decide_eq_true hu⟩
  have hdevice : ∀ d, ∀ l ∈ s.tables.active d, l.user = some u →
      (Ticket.remove u (some fp)).touches d ∧
        Freed ((.remove u (some fp), removeDelete u) :: others) s d := by
    intro d l hmem hu
    obtain ⟨hlm, hld, hla⟩ := Tables.mem_active.1 hmem
    obtain ⟨d', hld', ht, hf⟩ := hholds l hlm hla hu
    cases Option.some.inj (hld.symm.trans hld')
    exact ⟨ht, hf⟩
  refine h.shrink hapart (fun _ => Ticket.during_conflict) (only trivial) one_thread he ?_ ?_ hused ?_ ?_ ?_ (fun _ hf => hf) ?_ (only trivial)
  · intro l hmem _
    rw [hl] at hmem
    exact (List.mem_filter.1 hmem).1
  · intro r hr
    rw [hl] at hr
    exact ⟨r, (List.mem_filter.1 hr).1, rfl, rfl⟩
  · intro d
    rw [hactive]
    exact List.filter_sublist
  · intro d hnil hne'
    obtain ⟨l, hmem⟩ := List.exists_mem_of_ne_nil _ hne'
    have hu := hgone d l hmem (by rw [hnil]; exact List.not_mem_nil)
    exact (hdevice d l hmem hu).2.after (fun e' he' hid => ⟨e', he ▸ he', hid, fun h => h⟩)
      fun h => h.elim
  · intro o ho hin hlink d ht hne'
    obtain ⟨l, hmem⟩ := List.exists_mem_of_ne_nil _ hne'
    refine List.ne_nil_of_mem (a := l) ?_
    by_contra hnot
    have hu := hgone d l hmem hnot
    exact ne_of_touches hapart ho hin (.inr hlink) (hdevice d l hmem hu).1 ht rfl
  · intro d l htakes hmem
    rw [hactive, List.mem_filter] at hmem
    exact of_decide_eq_true hmem.2 htakes.1

end Each

/-- **The step lemma.** -/
theorem Inv.step {others : List Thread} {k : Ticket} {q : Phase} {qs : List Phase} {s s' : Server}
    (h : Inv ((k, q) :: others) s)
    (hapart : ∀ o ∈ others, InTurn o → ¬ (k.during s).Conflict o.1) (hstep : Step s q qs s') :
    Inv (after (k.next s) qs others) s' := by
  have hfit : Fits k q := h.fits _ List.mem_cons_self
  have hholds : Holds ((k, q) :: others) s k q := h.holds _ List.mem_cons_self
  cases hstep with
  | @checked u d ds hfree => exact h.checked hapart hfree
  | @linked u d ds e he =>
    exact h.quiet hapart (fun _ => Ticket.during_conflict) (only trivial) one_thread rfl rfl
      (fun _ hx => hx) (fun _ hf => hf.elim) (fun _ _ hf => hf.elim) (only trivial)
  | @inserted u d ds l s' hu hdev hact hid he hl hused =>
    exact h.inserted hapart hu hdev hact hid he hl hused
  | @root u d ds l a =>
    have hk : k = .link u (d :: ds) 2 := hfit
    subst hk
    exact h.quiet hapart (fun _ => Ticket.during_conflict) (only rfl) one_thread rfl rfl
      (fun _ hx => hx) (fun _ hf => hf.elim) (fun _ _ hf => ⟨_, List.mem_singleton.2 rfl, hf⟩)
      (only hholds)
  | @assigned u d ds l a s' he hl hused =>
    have hk : k = .link u (d :: ds) 3 := hfit
    subst hk
    refine h.quiet hapart (fun _ => Ticket.during_conflict) (only rfl) one_thread he hl hused
      (fun _ hf => hf.elim) (fun _ _ hf => ⟨_, List.mem_singleton.2 rfl, hf⟩) (only ?_)
    intro hnil
    rw [Tables.active_congr hl] at hnil
    exact hholds hnil
  | @registered u d ds s' he hl hused => exact h.registered hapart he hl hused
  | @absent u d ds hnone => exact h.absent hapart hnone
  | @found u d ds l hl hlu => exact h.found hapart hl hlu
  | @marked u d ds l now s' he hl hused => exact h.marked hapart he hl hused
  | @unassigned u d ds l s' he hl hused =>
    have hk : k = .unlink u (d :: ds) 2 := hfit
    subst hk
    refine h.quiet hapart (fun _ => Ticket.during_conflict) (only rfl) one_thread he hl hused
      (fun _ hf => ⟨_, List.mem_singleton.2 rfl, hf⟩) (fun _ _ hf => hf.elim) (only ?_)
    exact (Tables.active_congr hl d).trans hholds
  | @freed u d ds s' he hl hused =>
    have hk : k = .unlink u (d :: ds) 3 := hfit
    subst hk
    refine h.makeFree hapart (fun _ => Ticket.during_conflict) (only (fits_unlinkLoop u ds)) one_thread
      he hl hused ?_ (fun _ hf => hf) (fun _ _ hf => hf) (only (holds_unlinkLoop u ds))
    intro l hmem
    have hnil : s.tables.active d = [] := hholds
    rw [hnil] at hmem
    cases hmem
  | @listed u devices hdevices => exact h.listed hapart hdevices
  | @logged u ds s' hne he hl hused => exact h.logged hapart hne he hl hused
  | @deleted u s' he hl hused => exact h.deleted hapart he hl hused
  | @freedByRemoval d s' he hl hused =>
    obtain ⟨u, fp, rfl, hmem⟩ := hfit
    exact h.makeFree hapart (fun _ => Ticket.during_conflict) (only trivial) one_thread he hl hused
      hholds (fun _ hf => hf) (fun _ _ hf => hf) (only trivial)

end Phase

end Damaru
