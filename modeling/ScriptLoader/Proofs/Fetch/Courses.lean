import Mathlib.Data.List.Perm.Basic
import Mathlib.Logic.Relation
import ScriptLoader.Fetch
import ScriptLoader.Proofs.Specifier.Extension

/-!
# Fetching with answers in any order

The candidates of a stage answer in any order, and each of them may be asked for at any time before
the stage is over. What is requested, what comes out and what is reported does not depend on it,
apart from which of the texts of a stage wins.

* `Plans`: the stages of candidates for each form that a specifier has.
* `Standing`, `Step`: a fetch underway, and one request, one answer or the next stage.
* `Sound`: what every step keeps of the plan.
* `course_of_plan`: what holds in every course of a fetch, at any time and at its end; the executed
  `Fetch.run` is one of these courses.
-/

namespace ScriptLoader.Fetch

/-! ## Plans -/

/-- The text in front of an extension, if it ends with a name. -/
def EndsWithName (stem : List Char) : Prop := stem ≠ [] ∧ stem.getLast? ≠ some '/'

/-- The stages of candidates, by the form of the specifier. -/
inductive Plans (s : Specifier) (markup : Bool) : List (List String) → Prop where
  | direct {stem : List Char} {ext : String} (hext : ext ∈ ["ts", "tsx", "jsx"])
    (h : s.text.toList = stem ++ '.' :: ext.toList) (hstem : EndsWithName stem) :
    Plans s markup [[s.text]]
  | sibling {stem : List Char} (h : s.text.toList = stem ++ ".js".toList)
    (hstem : EndsWithName stem) :
    Plans s markup [[s.text], [String.ofList (stem ++ ".ts".toList)]]
  | probed
    (h : ∀ stem, EndsWithName stem → ∀ ext ∈ ["ts", "js", "tsx", "jsx"],
      s.text.toList ≠ stem ++ '.' :: ext.toList) :
    Plans s markup
      [if markup then [s.text ++ ".ts", s.text ++ ".tsx"] else [s.text ++ ".ts"], [s.text ++ ".js"]]

theorem plans_plan (s : Specifier) (markup : Bool) : Plans s markup (plan s markup) := by
  unfold plan
  split
  · next ext hext =>
    obtain ⟨hmem, stem, htext, hne, hlast⟩ := Specifier.explicitExtension?_eq_some_iff.1 hext
    split
    · next hjs =>
      subst hjs
      have hdrop : s.text.toList.dropLast.dropLast ++ ['t', 's'] = stem ++ ".ts".toList := by
        rw [htext, show stem ++ '.' :: "js".toList = stem ++ ['.'] ++ ['j'] ++ ['s'] by simp,
          List.dropLast_concat, List.dropLast_concat]
        simp
      rw [hdrop]
      exact .sibling htext ⟨hne, hlast⟩
    · next hjs =>
      refine @Plans.direct _ _ _ ext ?_ htext ⟨hne, hlast⟩
      simp only [Specifier.explicitExtensions, List.mem_cons, List.not_mem_nil, or_false] at hmem ⊢
      tauto
  · next hnone =>
    have hprobe : ∀ ext, s.withExtension ext = s.text ++ ("." ++ ext) := fun ext =>
      String.append_assoc
    simp only [hprobe]
    refine .probed fun stem hstem ext hext htext => ?_
    have hsome : s.explicitExtension? = some ext :=
      Specifier.explicitExtension?_eq_some_iff.2 ⟨hext, stem, htext, hstem⟩
    rw [hnone] at hsome
    cases hsome

/-- No location is a candidate twice. -/
theorem Plans.nodup {s : Specifier} {markup : Bool} {stages : List (List String)}
    (h : Plans s markup stages) : stages.flatten.Nodup := by
  have happend : ∀ a b : String, a.toList ≠ b.toList → s.text ++ a ≠ s.text ++ b := by
    intro a b hab heq
    have := congrArg String.toList heq
    rw [String.toList_append, String.toList_append] at this
    exact hab (List.append_cancel_left this)
  cases h with
  | direct => simp
  | @sibling stem h hstem =>
    have hne : s.text ≠ String.ofList (stem ++ ".ts".toList) := by
      intro heq
      rw [heq, String.toList_ofList] at h
      exact absurd (List.append_cancel_left h) (by decide)
    simpa using hne
  | probed h =>
    cases markup with
    | true =>
      simp [happend ".ts" ".tsx" (by decide), happend ".ts" ".js" (by decide),
        happend ".tsx" ".js" (by decide)]
    | false => simp [happend ".ts" ".js" (by decide)]

/-! ## Courses -/

/-- A fetch underway: the candidates of the stage that are not asked for yet and those that have not
answered, the stages behind it, what was requested and what failed, and the text that ended it. -/
structure Standing where
  unasked : List String := []
  pending : List String := []
  later : List (List String) := []
  requested : List String := []
  failed : List Attempt := []
  winner : Option Found := none

namespace Standing

/-- Where a fetch by some stages begins. -/
def start (stages : List (List String)) : Standing := { later := stages }

/-- What comes out when the fetch is over. -/
def result? (s : Specifier) (p : Standing) : Option (Except LoadError Found) :=
  match p.winner with
  | some found => some (.ok found)
  | none =>
    if p.unasked = [] ∧ p.pending = [] ∧ p.later = [] then some (.error (.notFetched s p.failed))
    else none

end Standing

/-- One thing that happens in a fetch without a text so far. -/
inductive Step (retrieve : String → Except RetrievalError String) : Standing → Standing → Prop where
  /-- Any candidate of the stage is asked for. -/
  | ask {p : Standing} {l : String} (hw : p.winner = none) (hl : l ∈ p.unasked) :
    Step retrieve p
      { p with
        unasked := p.unasked.erase l
        pending := l :: p.pending
        requested := p.requested ++ [l] }
  /-- Any of those answers without a text. -/
  | fail {p : Standing} {l : String} {e : RetrievalError} (hw : p.winner = none)
    (hl : l ∈ p.pending) (he : retrieve l = .error e) :
    Step retrieve p { p with pending := p.pending.erase l, failed := p.failed ++ [⟨l, e.text⟩] }
  /-- Any of those answers with a text. -/
  | succeed {p : Standing} {l text : String} (hw : p.winner = none) (hl : l ∈ p.pending)
    (ht : retrieve l = .ok text) :
    Step retrieve p { p with pending := p.pending.erase l, winner := some ⟨l, text⟩ }
  /-- All have failed, and the next stage begins. -/
  | next {p : Standing} {stage : List String} {later : List (List String)} (hw : p.winner = none)
    (hu : p.unasked = []) (hp : p.pending = []) (hs : p.later = stage :: later) :
    Step retrieve p { p with unasked := stage, later := later }

variable {retrieve : String → Except RetrievalError String} {stages : List (List String)}
  {p q : Standing}

/-- What a fetch underway has to do with the stages it goes by. -/
structure Sound (retrieve : String → Except RetrievalError String) (stages : List (List String))
    (p : Standing) : Prop where
  /-- The stages up to the present one are requested as far as they are asked for, and all but the
  present one have failed. -/
  begun : ∃ begun, stages = begun ++ p.later ∧ begun.flatten.Perm (p.requested ++ p.unasked) ∧
    ∀ l ∈ begun.dropLast.flatten, l ∈ p.failed.map Attempt.location
  /-- A request is answered once at most. -/
  answered : p.requested.Perm
    (p.failed.map Attempt.location ++ p.pending ++ p.winner.toList.map Found.location)
  failed : ∀ a ∈ p.failed, ∃ e, retrieve a.location = .error e ∧ a.reason = e.text
  winner : ∀ found ∈ p.winner, retrieve found.location = .ok found.text

theorem sound_start (retrieve : String → Except RetrievalError String)
    (stages : List (List String)) : Sound retrieve stages (.start stages) where
  begun := ⟨[], rfl, .refl _, by simp⟩
  answered := .refl _
  failed := by simp [Standing.start]
  winner := by simp [Standing.start]

/-- Every step keeps what a fetch has to do with its stages. -/
theorem Sound.step (h : Sound retrieve stages p) (hstep : Step retrieve p q) :
    Sound retrieve stages q := by
  obtain ⟨⟨begun, hstages, hperm, hearlier⟩, hanswered, hfailed, hwinner⟩ := h
  cases hstep with
  | @ask l hw hl =>
    refine ⟨⟨begun, hstages, hperm.trans ?_, hearlier⟩, ?_, hfailed, hwinner⟩
    · rw [List.append_assoc]
      exact (List.perm_cons_erase hl).append_left _
    · refine (List.perm_append_singleton l _).trans ((hanswered.cons l).trans ?_)
      simpa using List.perm_middle.symm
  | @fail l e hw hl he =>
    refine ⟨⟨begun, hstages, hperm, fun k hk => ?_⟩, hanswered.trans ?_, ?_, hwinner⟩
    · simp [hearlier k hk]
    · refine List.Perm.append_right _ ?_
      rw [List.map_append, List.append_assoc]
      exact (List.perm_cons_erase hl).append_left _
    · intro a ha
      rcases List.mem_append.1 ha with ha | ha
      · exact hfailed a ha
      · obtain rfl := List.mem_singleton.1 ha
        exact ⟨e, he, rfl⟩
  | @succeed l text hw hl ht =>
    refine ⟨⟨begun, hstages, hperm, hearlier⟩, hanswered.trans ?_, hfailed, ?_⟩
    · simp only [hw, Option.toList_none, List.map_nil, List.append_nil, Option.toList_some,
        List.map_cons, List.append_assoc]
      refine List.Perm.append_left _ ((List.perm_cons_erase hl).trans ?_)
      exact (List.perm_append_singleton l _).symm
    · intro found hfound
      obtain rfl := Option.some.inj hfound
      exact ht
  | @next stage later hw hu hp hs =>
    refine ⟨⟨begun ++ [stage], by simp [hstages, hs], ?_, ?_⟩, hanswered, hfailed, hwinner⟩
    · rw [hu, List.append_nil] at hperm
      rw [List.flatten_append, List.flatten_singleton]
      exact hperm.append_right stage
    · rw [List.dropLast_concat]
      intro l hl
      have hasked : l ∈ p.requested := by simpa [hu] using hperm.mem_iff.1 hl
      simpa [hp, hw] using hanswered.mem_iff.1 hasked

/-- And so does every course. -/
theorem Sound.course (h : Sound retrieve stages p)
    (hcourse : Relation.ReflTransGen (Step retrieve) p q) : Sound retrieve stages q := by
  induction hcourse with
  | refl => exact h
  | tail _ hstep ih => exact ih.step hstep

/-! ## Every course comes to an end -/

/-- What may still happen in a fetch. -/
def Standing.remaining (p : Standing) : Nat :=
  2 * p.later.flatten.length + p.later.length + 2 * p.unasked.length + p.pending.length

theorem remaining_lt_of_step (h : Step retrieve p q) : q.remaining < p.remaining := by
  cases h with
  | @ask l hw hl =>
    have hlength := List.length_erase_add_one hl
    simp only [Standing.remaining, List.length_cons]
    omega
  | @fail l e hw hl he =>
    have hlength := List.length_erase_add_one hl
    simp only [Standing.remaining]
    omega
  | @succeed l text hw hl ht =>
    have hlength := List.length_erase_add_one hl
    simp only [Standing.remaining]
    omega
  | @next stage later hw hu hp hs =>
    simp only [Standing.remaining, hs, hu, List.flatten_cons, List.length_append, List.length_cons,
      List.length_nil]
    omega

/-- A fetch goes on exactly as long as nothing has come out. -/
theorem exists_step_iff (retrieve : String → Except RetrievalError String) (s : Specifier)
    (p : Standing) : (∃ q, Step retrieve p q) ↔ p.result? s = none := by
  constructor
  · rintro ⟨q, h⟩
    cases h with
    | ask hw hl => simp [Standing.result?, hw, List.ne_nil_of_mem hl]
    | fail hw hl => simp [Standing.result?, hw, List.ne_nil_of_mem hl]
    | succeed hw hl => simp [Standing.result?, hw, List.ne_nil_of_mem hl]
    | next hw hu hp hs => simp [Standing.result?, hw, hs]
  · intro h
    unfold Standing.result? at h
    split at h
    · cases h
    · next hw =>
      have hmore : ¬ (p.unasked = [] ∧ p.pending = [] ∧ p.later = []) := by simpa using h
      rcases hu : p.unasked with _ | ⟨l, unasked⟩
      · rcases hp : p.pending with _ | ⟨l, pending⟩
        · obtain ⟨stage, later, hs⟩ := List.exists_cons_of_ne_nil fun hs => hmore ⟨hu, hp, hs⟩
          exact ⟨_, .next hw hu hp hs⟩
        · have hl : l ∈ p.pending := by simp [hp]
          cases hr : retrieve l with
          | ok text => exact ⟨_, .succeed hw hl hr⟩
          | error e => exact ⟨_, .fail hw hl hr⟩
      · have hl : l ∈ p.unasked := by simp [hu]
        exact ⟨_, .ask hw hl⟩

/-! ## What is requested and what comes out -/

theorem Standing.winner_of_result? {s : Specifier} {found : Found}
    (h : p.result? s = some (.ok found)) : p.winner = some found := by
  unfold Standing.result? at h
  split at h
  · next hw =>
    cases h
    exact hw
  · split at h <;> cases h

namespace Sound

theorem perm_flatten (h : Sound retrieve stages p) :
    stages.flatten.Perm (p.requested ++ p.unasked ++ p.later.flatten) := by
  obtain ⟨begun, rfl, hperm, -⟩ := h.begun
  rw [List.flatten_append]
  exact hperm.append_right _

theorem nodup_requested (h : Sound retrieve stages p) (hn : stages.flatten.Nodup) :
    p.requested.Nodup := by
  have hall := h.perm_flatten.nodup hn
  rw [List.append_assoc] at hall
  exact (List.nodup_append.1 hall).1

theorem mem_flatten (h : Sound retrieve stages p) {l : String} (hl : l ∈ p.requested) :
    l ∈ stages.flatten :=
  h.perm_flatten.mem_iff.2 (by simp [hl])

/-- What is asked for in a stage is asked for after all earlier stages have failed. -/
theorem earlier_failed (h : Sound retrieve stages p) (hn : stages.flatten.Nodup)
    {front rest : List (List String)} {stage : List String} {l : String}
    (hs : stages = front ++ stage :: rest) (hl : l ∈ stage) (hreq : l ∈ p.requested) :
    ∀ k ∈ front.flatten, ∃ e, retrieve k = .error e ∧ ⟨k, e.text⟩ ∈ p.failed := by
  obtain ⟨begun, hbegun, hperm, hearlier⟩ := h.begun
  have hlb : l ∈ begun.flatten := hperm.mem_iff.2 (by simp [hreq])
  have hnotin : l ∉ front.flatten := by
    rw [hs, List.flatten_append, List.flatten_cons] at hn
    exact fun hfront => (List.nodup_append.1 hn).2.2 l hfront l (List.mem_append_left _ hl) rfl
  -- The stages in front cannot be all that have begun, since the location is a candidate once only.
  obtain ⟨more, hmore⟩ : ∃ more, begun = front ++ stage :: more := by
    rcases List.append_eq_append_iff.1 (hbegun.symm.trans hs) with ⟨x, hx, -⟩ | ⟨x, hx, hrest⟩
    · rw [hx, List.flatten_append] at hnotin
      exact absurd (List.mem_append_left _ hlb) hnotin
    · cases x with
      | nil => exact absurd hlb (by rwa [hx, List.append_nil])
      | cons y x =>
        obtain ⟨rfl, -⟩ := List.cons.inj hrest
        exact ⟨x, hx⟩
  intro k hk
  have hdone : k ∈ begun.dropLast.flatten := by
    rw [hmore, List.dropLast_append_of_ne_nil (List.cons_ne_nil _ _), List.flatten_append]
    exact List.mem_append_left _ hk
  obtain ⟨⟨location, reason⟩, ha, rfl⟩ := List.mem_map.1 (hearlier k hdone)
  obtain ⟨e, he, rfl⟩ := h.failed _ ha
  exact ⟨e, he, ha⟩

/-- A text comes from the first stage that has one. -/
theorem stage_of_winner (h : Sound retrieve stages p) (hn : stages.flatten.Nodup) {found : Found}
    (hf : p.winner = some found) : ∃ front stage rest, stages = front ++ stage :: rest ∧
      found.location ∈ stage ∧ retrieve found.location = .ok found.text ∧
      ∀ k ∈ front.flatten, ∃ e, retrieve k = .error e := by
  have hreq : found.location ∈ p.requested := h.answered.mem_iff.2 (by simp [hf])
  obtain ⟨stage, hstage, hl⟩ := List.mem_flatten.1 (h.mem_flatten hreq)
  obtain ⟨front, rest, hs⟩ := List.append_of_mem hstage
  refine ⟨front, stage, rest, hs, hl, h.winner found hf, fun k hk => ?_⟩
  obtain ⟨e, he, -⟩ := h.earlier_failed hn hs hl hreq k hk
  exact ⟨e, he⟩

/-- Without a text at its end, a fetch has asked for everything and reports everything. -/
theorem perm_of_notFetched (h : Sound retrieve stages p) {s : Specifier} {error : LoadError}
    (he : p.result? s = some (.error error)) : error = .notFetched s p.failed ∧
      (p.failed.map Attempt.location).Perm stages.flatten ∧ p.requested.Perm stages.flatten := by
  unfold Standing.result? at he
  split at he
  · cases he
  · next hw =>
    split at he
    · next hdone =>
      obtain ⟨hu, hp, hs⟩ := hdone
      have hall := h.perm_flatten
      have hanswered := h.answered
      simp only [hu, hs, List.flatten_nil, List.append_nil] at hall
      simp only [hp, hw, Option.toList_none, List.map_nil, List.append_nil] at hanswered
      cases he
      exact ⟨rfl, (hall.trans hanswered).symm, hall.symm⟩
    · cases he

end Sound

/-- What holds of a fetch underway by some stages. -/
structure Contract (retrieve : String → Except RetrievalError String) (s : Specifier)
    (stages : List (List String)) (p : Standing) : Prop where
  /-- No location is requested twice, and none that is no candidate. -/
  requested : p.requested.Nodup ∧ ∀ l ∈ p.requested, l ∈ stages.flatten
  /-- A candidate of a stage is requested only after all candidates of earlier stages have failed. -/
  inTurn : ∀ front stage rest, stages = front ++ stage :: rest → ∀ l ∈ stage, l ∈ p.requested →
    ∀ k ∈ front.flatten, ∃ e, retrieve k = .error e ∧ ⟨k, e.text⟩ ∈ p.failed
  /-- As long as nothing has come out something can happen, and nothing after that. -/
  goesOn : (∃ q, Step retrieve p q) ↔ p.result? s = none
  /-- A text comes out exactly if some candidate has one. -/
  okIff : ∀ outcome, p.result? s = some outcome →
    ((∃ found, outcome = .ok found) ↔ ∃ l ∈ stages.flatten, ∃ text, retrieve l = .ok text)
  /-- It is the text of its own location, and no candidate of an earlier stage has one. -/
  ofText : ∀ found, p.result? s = some (.ok found) →
    ∃ front stage rest, stages = front ++ stage :: rest ∧ found.location ∈ stage ∧
      retrieve found.location = .ok found.text ∧ ∀ k ∈ front.flatten, ∃ e, retrieve k = .error e
  /-- Without a text every candidate is requested, and reported once with the reason it gave. -/
  ofFailure : ∀ error, p.result? s = some (.error error) →
    p.requested.Perm stages.flatten ∧ ∃ attempts, error = .notFetched s attempts ∧
      (attempts.map Attempt.location).Perm stages.flatten ∧
      ∀ a ∈ attempts, ∃ e, retrieve a.location = .error e ∧ a.reason = e.text

theorem Sound.contract (h : Sound retrieve stages p) (hn : stages.flatten.Nodup) (s : Specifier) :
    Contract retrieve s stages p where
  requested := ⟨h.nodup_requested hn, fun _ => h.mem_flatten⟩
  inTurn _ _ _ hs _ hl hreq := h.earlier_failed hn hs hl hreq
  goesOn := exists_step_iff retrieve s p
  okIff := by
    intro outcome hout
    cases outcome with
    | ok found =>
      have hwinner := Standing.winner_of_result? hout
      have hreq : found.location ∈ p.requested := h.answered.mem_iff.2 (by simp [hwinner])
      exact ⟨fun _ => ⟨_, h.mem_flatten hreq, _, h.winner found hwinner⟩, fun _ => ⟨found, rfl⟩⟩
    | error error =>
      obtain ⟨-, hall, -⟩ := h.perm_of_notFetched hout
      refine ⟨by rintro ⟨_, ⟨⟩⟩, fun ⟨l, hl, text, ht⟩ => ?_⟩
      obtain ⟨a, ha, rfl⟩ := List.mem_map.1 (hall.mem_iff.2 hl)
      obtain ⟨e, he, -⟩ := h.failed a ha
      rw [ht] at he
      cases he
  ofText := by
    intro found hout
    exact h.stage_of_winner hn (Standing.winner_of_result? hout)
  ofFailure := by
    intro error hout
    obtain ⟨rfl, hall, hreq⟩ := h.perm_of_notFetched hout
    exact ⟨hreq, p.failed, rfl, hall, h.failed⟩

/-! ## The executed course -/

/-- The candidates of a stage are asked for in their order. -/
theorem course_ask {asked unasked : List String} (hw : p.winner = none)
    (hu : p.unasked = asked ++ unasked) :
    ∃ q, Relation.ReflTransGen (Step retrieve) p q ∧ q.unasked = unasked ∧
      q.pending.Perm (asked ++ p.pending) ∧ q.later = p.later ∧
      q.requested = p.requested ++ asked ∧ q.failed = p.failed ∧ q.winner = none := by
  induction asked generalizing p with
  | nil => exact ⟨p, .refl, hu, .refl _, rfl, by simp, rfl, hw⟩
  | cons l asked ih =>
    have hl : l ∈ p.unasked := by simp [hu]
    have hrest : p.unasked.erase l = asked ++ unasked := by
      rw [hu, List.cons_append, List.erase_cons_head]
    obtain ⟨q, hcourse, hunasked, hpending, hlater, hrequested, hfailed, hwinner⟩ :=
      ih (p := { p with
        unasked := p.unasked.erase l
        pending := l :: p.pending
        requested := p.requested ++ [l] }) hw hrest
    refine ⟨q, hcourse.head (.ask hw hl), hunasked, hpending.trans List.perm_middle, hlater, ?_,
      hfailed, hwinner⟩
    simpa using hrequested

/-- Those that are asked for answer in any order, up to the first text. -/
theorem course_answer {order : List String} (hw : p.winner = none) (hp : p.pending.Perm order) :
    ∃ q, Relation.ReflTransGen (Step retrieve) p q ∧ q.unasked = p.unasked ∧ q.later = p.later ∧
      q.requested = p.requested ∧ q.failed = p.failed ++ (firstText retrieve order).1 ∧
      q.winner = (firstText retrieve order).2 ∧
      ((firstText retrieve order).2 = none → q.pending = []) := by
  induction order generalizing p with
  | nil => exact ⟨p, .refl, rfl, rfl, rfl, by simp [firstText], hw, fun _ => hp.eq_nil⟩
  | cons l order ih =>
    have hl : l ∈ p.pending := hp.mem_iff.2 List.mem_cons_self
    cases hr : retrieve l with
    | ok text =>
      exact ⟨_, .single (.succeed hw hl hr), rfl, rfl, rfl, by simp [firstText, hr],
        by simp [firstText, hr], by simp [firstText, hr]⟩
    | error e =>
      have hrest : (p.pending.erase l).Perm order :=
        ((List.perm_cons_erase hl).symm.trans hp).cons_inv
      obtain ⟨q, hcourse, hunasked, hlater, hrequested, hfailed, hwinner, hnone⟩ := ih (p := { p with
        pending := p.pending.erase l
        failed := p.failed ++ [⟨l, e.text⟩] }) hw hrest
      refine ⟨q, hcourse.head (.fail hw hl hr), hunasked, hlater, hrequested, ?_, ?_, ?_⟩
      · simpa [firstText, hr] using hfailed
      · simpa [firstText, hr] using hwinner
      · simpa [firstText, hr] using hnone

theorem answerOrder_perm (src : Source) (locations : List String) :
    (answerOrder src locations).Perm locations := by
  have hparts := List.filter_append_perm (fun l => (src.delay? l).isNone) locations
  refine List.Perm.trans (List.Perm.append_left _ ?_) hparts
  refine (List.mergeSort_perm _ _).trans (List.Perm.of_eq ?_)
  refine List.filter_congr fun l _ => ?_
  cases src.delay? l <;> rfl

/-- Only a text that is there at once keeps candidates from being asked for. -/
theorem exists_asked_append (src : Source) (stage : List String) :
    ∃ unasked, stage = asked src stage ++ unasked ∧
      (unasked ≠ [] → ∃ l ∈ asked src stage, (src.retrieve l).isOk = true) := by
  induction stage with
  | nil => exact ⟨[], rfl, fun h => absurd rfl h⟩
  | cons l stage ih =>
    rw [asked]
    split
    · next h =>
      rw [Bool.and_eq_true] at h
      exact ⟨stage, rfl, fun _ => ⟨l, List.mem_singleton_self l, h.2⟩⟩
    · obtain ⟨unasked, hstage, hok⟩ := ih
      refine ⟨unasked, by rw [List.cons_append, ← hstage], fun h => ?_⟩
      obtain ⟨k, hk, hkOk⟩ := hok h
      exact ⟨k, List.mem_cons_of_mem l hk, hkOk⟩

theorem firstText_eq_none {locations : List String}
    (h : (firstText retrieve locations).2 = none) : ∀ l ∈ locations, (retrieve l).isOk = false := by
  induction locations with
  | nil => simp
  | cons l locations ih =>
    cases hr : retrieve l with
    | ok text => simp [firstText, hr] at h
    | error e =>
      simp only [firstText, hr] at h
      exact List.forall_mem_cons.2 ⟨by rw [hr]; rfl, ih h⟩

/-- The race of the candidates of a stage is a course. -/
theorem course_race (src : Source) (hw : p.winner = none) (hp : p.pending = []) :
    ∃ q, Relation.ReflTransGen (Step src.retrieve) p q ∧ q.later = p.later ∧
      q.requested = p.requested ++ (race src p.unasked).requested ∧
      q.failed = p.failed ++ (race src p.unasked).failed ∧
      q.winner = (race src p.unasked).winner ∧
      ((race src p.unasked).winner = none → q.unasked = [] ∧ q.pending = []) := by
  obtain ⟨unasked, hstage, hok⟩ := exists_asked_append src p.unasked
  have hperm := answerOrder_perm src (asked src p.unasked)
  obtain ⟨p₁, hcourse₁, hunasked₁, hpending₁, hlater₁, hrequested₁, hfailed₁, hwinner₁⟩ :=
    course_ask hw hstage
  rw [hp, List.append_nil] at hpending₁
  obtain ⟨q, hcourse, hunasked, hlater, hrequested, hfailed, hwinner, hnone⟩ :=
    course_answer hwinner₁ (hpending₁.trans hperm.symm)
  refine ⟨q, hcourse₁.trans hcourse, hlater.trans hlater₁, hrequested.trans hrequested₁,
    by rw [hfailed, hfailed₁]; rfl, hwinner, fun hlost => ⟨?_, hnone hlost⟩⟩
  -- Nobody has a text, so that everybody was asked.
  rw [hunasked, hunasked₁]
  by_contra hne
  obtain ⟨l, hl, hlOk⟩ := hok hne
  have hno := firstText_eq_none hlost l (hperm.mem_iff.2 hl)
  rw [hlOk] at hno
  cases hno

/-- The executed stages are a course. -/
theorem course_runStages (src : Source) (hw : p.winner = none) (hu : p.unasked = [])
    (hp : p.pending = []) :
    ∃ q, Relation.ReflTransGen (Step src.retrieve) p q ∧
      q.requested = p.requested ++ (runStages src p.later).requested ∧
      q.failed = p.failed ++ (runStages src p.later).failed ∧
      q.winner = (runStages src p.later).winner ∧
      ((runStages src p.later).winner = none → q.unasked = [] ∧ q.pending = [] ∧ q.later = []) := by
  induction hs : p.later generalizing p with
  | nil => exact ⟨p, .refl, by simp [runStages, hw, hu, hp, hs]⟩
  | cons stage later ih =>
    obtain ⟨p₁, hcourse₁, hlater₁, hrequested₁, hfailed₁, hwinner₁, hnone₁⟩ :=
      course_race (p := { p with unasked := stage, later := later }) src hw hp
    have hcourse := hcourse₁.head (.next hw hu hp hs)
    rw [runStages]
    cases hrace : (race src stage).winner with
    | some found =>
      refine ⟨p₁, hcourse, hrequested₁, hfailed₁, by simpa [hrace] using hwinner₁, ?_⟩
      simp [hrace]
    | none =>
      obtain ⟨hunasked, hpending⟩ := hnone₁ hrace
      obtain ⟨q, hcourse₂, hrequested, hfailed, hwinner, hend⟩ :=
        ih (hwinner₁.trans hrace) hunasked hpending hlater₁
      refine ⟨q, hcourse.trans hcourse₂, ?_, ?_, hwinner, hend⟩
      · rw [hrequested, hrequested₁, List.append_assoc]
      · rw [hfailed, hfailed₁, List.append_assoc]

/-- Fetching as it is executed, with requests that end when a text is there at once and answers by
the time they take, is a course with what comes out of it. -/
theorem course_run (src : Source) (s : Specifier) (markup : Bool) :
    ∃ p, Relation.ReflTransGen (Step src.retrieve) (.start (plan s markup)) p ∧
      p.result? s = some (run src s markup).1 ∧ p.requested = (run src s markup).2 := by
  obtain ⟨p, hcourse, hrequested, hfailed, hwinner, hend⟩ :=
    course_runStages (p := .start (plan s markup)) src rfl rfl rfl
  refine ⟨p, hcourse, ?_, ?_⟩
  · change p.winner = (runStages src (plan s markup)).winner at hwinner
    simp only [run, Standing.result?, hwinner]
    cases hrun : (runStages src (plan s markup)).winner with
    | some found => rfl
    | none =>
      dsimp only
      rw [if_pos (hend hrun), hfailed]
      rfl
  · rw [hrequested, run]
    split <;> rfl

/-- Fetching goes by the stages that the form of the specifier gives, with every course of requests
and answers: it keeps the contract at any time, it comes to an end, and the executed fetch is one of
these courses. -/
theorem course_of_plan (retrieve : String → Except RetrievalError String) (s : Specifier)
    (markup : Bool) :
    Plans s markup (plan s markup) ∧
      (∀ p, Relation.ReflTransGen (Step retrieve) (.start (plan s markup)) p →
        Contract retrieve s (plan s markup) p) ∧
      WellFounded (fun q p => Step retrieve p q) ∧
      ∀ src : Source, src.retrieve = retrieve →
        ∃ p, Relation.ReflTransGen (Step retrieve) (.start (plan s markup)) p ∧
          p.result? s = some (run src s markup).1 ∧ p.requested = (run src s markup).2 := by
  have hplans := plans_plan s markup
  refine ⟨hplans, fun p hp => ?_, ?_, ?_⟩
  · exact ((sound_start retrieve _).course hp).contract hplans.nodup s
  · exact Subrelation.wf remaining_lt_of_step (measure Standing.remaining).wf
  · rintro src rfl
    exact course_run src s markup

/-- With an untyped file only, a course gets to it behind the two typed candidates. -/
theorem course_of_untyped :
    ∃ p, p.result? ⟨"/a"⟩ = some (.ok ⟨"/a.js", "x"⟩) ∧
      p.requested = ["/a.ts", "/a.tsx", "/a.js"] ∧
      Contract (fun l => if l = "/a.js" then .ok "x" else .error .notFound) ⟨"/a"⟩
        (plan ⟨"/a"⟩ true) p := by
  obtain ⟨-, hcontract, -, hrun⟩ :=
    course_of_plan (fun l => if l = "/a.js" then .ok "x" else .error .notFound) ⟨"/a"⟩ true
  obtain ⟨p, hcourse, hresult, hrequested⟩ :=
    hrun ⟨fun l => if l = "/a.js" then .ok "x" else .error .notFound, fun _ => none⟩ rfl
  exact ⟨p, hresult.trans (by decide +kernel), hrequested.trans (by decide +kernel),
    hcontract p hcourse⟩

end ScriptLoader.Fetch
