import EvoClaw.DevEngine.Deploy
import Mathlib.Data.List.TakeWhile

-- What a review has to say for a deployment to write files.
namespace EvoClaw.DevEngine

open Posix Text

abbrev Line := List Char

def isHeading (line : Line) : Bool :=
  "##".toList.isPrefixOf line

def isAssessment (line : Line) : Bool :=
  "## Overall Assessment".toList.isPrefixOf line

def Mentions (word : String) (lines : List Line) : Prop :=
  ∃ line ∈ lines, contains (upper line) word.toList = true

instance (word : String) : DecidablePred (Mentions word) := fun lines =>
  inferInstanceAs (Decidable (∃ line ∈ lines, _))

def reviewLines (reviewText : String) : List Line :=
  (splitlines reviewText.toList).map strip

-- The assessments of a review, each from its heading up to the next heading.
def assessments : List Line → List (List Line)
  | [] => []
  | line :: rest =>
      if isAssessment line then
        (line :: rest.takeWhile fun line => ! isHeading line) :: assessments rest
      else assessments rest

def Passes (assessment : List Line) : Prop :=
  Mentions "PASS" assessment ∧ ¬ Mentions "FAIL" assessment

instance : DecidablePred Passes := fun _ => inferInstanceAs (Decidable (_ ∧ _))

-- A line that does not decide the scan of an assessment.
def silent (line : Line) : Bool :=
  ! isHeading line && ! contains (upper line) "FAIL".toList && ! contains (upper line) "PASS".toList

def undecided (line : Line) : Bool :=
  isAssessment line || silent line

-- A line that ends the scan with a PASS.
structure Accepts (line : Line) : Prop where
  heading : isHeading line = false
  fail : contains (upper line) "FAIL".toList = false
  pass : contains (upper line) "PASS".toList = true

-- From its first assessment on, the text has only silent lines and further headings of assessments
-- before it comes to a line that accepts, which stands below the last of these headings.
structure Verdict (lines before : List Line) (heading : Line) (above : List Line) (line : Line)
    (behind : List Line) : Prop where
  cut : lines.dropWhile (fun line => ! isAssessment line) =
    before ++ heading :: (above ++ line :: behind)
  opens : isAssessment heading = true
  before_undecided : ∀ other ∈ before, undecided other = true
  above_silent : ∀ other ∈ above, silent other = true
  accepts : Accepts line

-- There is a FAIL that the scan leaves unread, in the heading or behind the line that accepts, and
-- what other assessments there are do not pass either: the ones before have a heading without PASS,
-- or with FAIL as well, and in the ones behind every PASS comes with a FAIL.
def HiddenFail (reviewText : String) : Prop :=
  ∃ before heading above line behind,
    Verdict (reviewLines reviewText) before heading above line behind ∧
    Mentions "FAIL" (heading :: behind.takeWhile fun line => ! isHeading line) ∧
    (∀ other ∈ before, isAssessment other = true → Mentions "PASS" [other] →
      Mentions "FAIL" [other]) ∧
    ∀ other ∈ assessments behind, Mentions "PASS" other → Mentions "FAIL" other

variable {word : String} {line heading : Line} {lines rest before above behind : List Line}
  {reviewText : String}

section Lines

theorem isHeading_of_isAssessment (h : isAssessment line = true) : isHeading line = true := by
  rw [isAssessment, List.isPrefixOf_iff_prefix] at h
  rw [isHeading, List.isPrefixOf_iff_prefix]
  have hmarks : "##".toList <+: "## Overall Assessment".toList := by decide
  exact hmarks.trans h

theorem silent_iff : silent line = true ↔ isHeading line = false ∧
    contains (upper line) "FAIL".toList = false ∧ contains (upper line) "PASS".toList = false := by
  simp only [silent, Bool.and_eq_true, Bool.not_eq_true', and_assoc]

theorem undecided_iff : undecided line = true ↔ isAssessment line = true ∨ silent line = true := by
  rw [undecided, Bool.or_eq_true]

theorem silent_of_undecided (h : undecided line = true) (hnot : isAssessment line = false) :
    silent line = true := by
  rw [undecided, hnot, Bool.false_or] at h
  exact h

theorem Accepts.not_undecided (h : Accepts line) : undecided line = false := by
  have hassessment : isAssessment line = false := by
    rw [← Bool.not_eq_true]
    intro hopens
    have hplain := h.heading
    rw [isHeading_of_isAssessment hopens] at hplain
    cases hplain
  rw [undecided, hassessment, Bool.false_or, ← Bool.not_eq_true, silent_iff, h.pass]
  exact fun hsilent => Bool.noConfusion hsilent.2.2

theorem mentions_cons :
    Mentions word (line :: lines) ↔ contains (upper line) word.toList = true ∨ Mentions word lines :=
  List.exists_mem_cons_iff ..

theorem mentions_singleton : Mentions word [line] ↔ contains (upper line) word.toList = true := by
  simp [Mentions]

theorem mentions_append : Mentions word (lines ++ rest) ↔ Mentions word lines ∨ Mentions word rest := by
  simp only [Mentions, List.mem_append, or_and_right, exists_or]

theorem not_mentions_silent (h : ∀ other ∈ lines, silent other = true) :
    ¬ Mentions "PASS" lines ∧ ¬ Mentions "FAIL" lines := by
  constructor
  · rintro ⟨other, hmem, hpass⟩
    rw [(silent_iff.mp (h other hmem)).2.2] at hpass
    cases hpass
  · rintro ⟨other, hmem, hfail⟩
    rw [(silent_iff.mp (h other hmem)).2.1] at hfail
    cases hfail

end Lines

section Sections

-- A heading ends the section before it.
theorem takeWhile_heading (h : isHeading heading = true) :
    ((lines ++ heading :: rest).takeWhile fun line => ! isHeading line) =
      lines.takeWhile fun line => ! isHeading line := by
  induction lines with
  | nil => simp [h]
  | cons line lines ih =>
      rw [List.cons_append, List.takeWhile_cons, List.takeWhile_cons, ih]

theorem assessments_cons (line : Line) (rest : List Line) : assessments (line :: rest) =
    if isAssessment line then
      (line :: rest.takeWhile fun line => ! isHeading line) :: assessments rest
    else assessments rest := rfl

theorem assessments_append (h : isHeading heading = true) :
    assessments (lines ++ heading :: rest) = assessments lines ++ assessments (heading :: rest) := by
  induction lines with
  | nil => rfl
  | cons line lines ih =>
      rw [List.cons_append, assessments_cons line, takeWhile_heading h, ih, assessments_cons line]
      split <;> rfl

theorem assessments_silent (h : ∀ other ∈ lines, silent other = true) :
    assessments (lines ++ rest) = assessments rest := by
  induction lines with
  | nil => rfl
  | cons line lines ih =>
      have hline : ¬ isAssessment line = true := by
        intro hopens
        have hheading := (silent_iff.mp (h line List.mem_cons_self)).1
        rw [isHeading_of_isAssessment hopens] at hheading
        cases hheading
      rw [List.cons_append, assessments, if_neg hline]
      exact ih fun other hother => h other (List.mem_cons_of_mem line hother)

theorem assessments_dropWhile :
    assessments (lines.dropWhile fun line => ! isAssessment line) = assessments lines := by
  induction lines with
  | nil => rfl
  | cons line rest ih =>
      by_cases h : isAssessment line = true
      · rw [List.dropWhile_cons_of_neg (by simp [h])]
      · rw [List.dropWhile_cons_of_pos (by simp [h]), ih, assessments, if_neg h]

-- The sections of undecided lines say what their headings say.
theorem passes_undecided_iff (h : ∀ other ∈ lines, undecided other = true) :
    (∃ assessment ∈ assessments lines, Passes assessment) ↔
      ∃ heading ∈ lines, isAssessment heading = true ∧ Passes [heading] := by
  induction lines with
  | nil => simp [assessments]
  | cons line rest ih =>
      have ih := ih fun other hother => h other (List.mem_cons_of_mem line hother)
      have hsilent : ∀ other ∈ rest.takeWhile (fun line => ! isHeading line),
          silent other = true := by
        intro other hother
        have hheading := List.mem_takeWhile_imp hother
        refine silent_of_undecided (h other (List.mem_cons_of_mem line
          (List.takeWhile_sublist _ |>.subset hother))) ?_
        rw [← Bool.not_eq_true]
        intro hopens
        rw [isHeading_of_isAssessment hopens] at hheading
        cases hheading
      have hsame (word : String)
          (hnone : ¬ Mentions word (rest.takeWhile fun line => ! isHeading line)) :
          Mentions word (line :: rest.takeWhile fun line => ! isHeading line) ↔
            Mentions word [line] := by
        rw [mentions_cons, mentions_singleton, or_iff_left hnone]
      obtain ⟨hpass, hfail⟩ := not_mentions_silent hsilent
      by_cases hopens : isAssessment line = true
      · rw [assessments, if_pos hopens, List.exists_mem_cons_iff, List.exists_mem_cons_iff, ih,
          Passes, hsame "PASS" hpass, hsame "FAIL" hfail, and_iff_right hopens]
        rfl
      · rw [assessments, if_neg hopens, List.exists_mem_cons_iff, ih,
          or_iff_right fun hline => hopens hline.1]

end Sections

section Scan

theorem verdictIn_cons :
    verdictIn (line :: rest) =
      if isAssessment (strip line) then verdictIn rest
      else if isHeading (strip line) then false
      else if contains (upper (strip line)) "FAIL".toList then false
      else if contains (upper (strip line)) "PASS".toList then true
      else verdictIn rest := rfl

-- The scan passes exactly if the first line that is not undecided accepts.
theorem verdictIn_iff : verdictIn lines = true ↔ ∃ line behind,
    (lines.map strip).dropWhile undecided = line :: behind ∧ Accepts line := by
  induction lines with
  | nil => simp [verdictIn]
  | cons line rest ih =>
      have hstops (hdecided : undecided (strip line) = false) :
          (∃ first behind, ((line :: rest).map strip).dropWhile undecided = first :: behind ∧
            Accepts first) ↔ Accepts (strip line) := by
        rw [List.map_cons, List.dropWhile_cons_of_neg (by rw [hdecided]; exact Bool.false_ne_true)]
        simp
      have hgoes (hundecided : undecided (strip line) = true) :
          ((line :: rest).map strip).dropWhile undecided = (rest.map strip).dropWhile undecided := by
        rw [List.map_cons, List.dropWhile_cons_of_pos hundecided]
      rw [verdictIn_cons]
      by_cases hassessment : isAssessment (strip line) = true
      · rw [if_pos hassessment, hgoes (undecided_iff.mpr (.inl hassessment)), ih]
      rw [if_neg hassessment]
      have hundecided : undecided (strip line) = true ↔ silent (strip line) = true :=
        undecided_iff.trans (or_iff_right hassessment)
      by_cases hheading : isHeading (strip line) = true
      · rw [if_pos hheading, hstops]
        · refine iff_of_false Bool.false_ne_true fun h => ?_
          rw [h.heading] at hheading
          cases hheading
        · rw [← Bool.not_eq_true, hundecided, silent_iff, hheading]
          exact fun h => Bool.noConfusion h.1
      rw [if_neg hheading]
      by_cases hfail : contains (upper (strip line)) "FAIL".toList = true
      · rw [if_pos hfail, hstops]
        · refine iff_of_false Bool.false_ne_true fun h => ?_
          rw [h.fail] at hfail
          cases hfail
        · rw [← Bool.not_eq_true, hundecided, silent_iff, hfail]
          exact fun h => Bool.noConfusion h.2.1
      rw [if_neg hfail]
      rw [Bool.not_eq_true] at hheading hfail
      by_cases hpass : contains (upper (strip line)) "PASS".toList = true
      · have haccepts : Accepts (strip line) := ⟨hheading, hfail, hpass⟩
        rw [if_pos hpass, hstops haccepts.not_undecided]
        exact iff_of_true rfl haccepts
      · rw [if_neg hpass, hgoes (hundecided.mpr (silent_iff.mpr ⟨hheading, hfail, Bool.eq_false_iff.mpr hpass⟩)),
          ih]

-- The last heading of undecided lines that have one.
theorem last_assessment (h : ∀ other ∈ lines, undecided other = true)
    (hsome : ∃ other ∈ lines, isAssessment other = true) :
    ∃ before heading above, lines = before ++ heading :: above ∧ isAssessment heading = true ∧
      ∀ other ∈ above, silent other = true := by
  induction lines with
  | nil => simp at hsome
  | cons line rest ih =>
      have hrest : ∀ other ∈ rest, undecided other = true := fun other hother =>
        h other (List.mem_cons_of_mem line hother)
      by_cases hlater : ∃ other ∈ rest, isAssessment other = true
      · obtain ⟨before, heading, above, rfl, hopens, habove⟩ := ih hrest hlater
        exact ⟨line :: before, heading, above, rfl, hopens, habove⟩
      · refine ⟨[], line, rest, rfl, ?_, fun other hother => ?_⟩
        · exact (List.exists_mem_cons_iff .. |>.mp hsome).resolve_right hlater
        · refine silent_of_undecided (hrest other hother) (Bool.eq_false_iff.mpr fun hopens => ?_)
          exact hlater ⟨other, hother, hopens⟩

theorem undecided_of_isAssessment (h : isAssessment line = true) : undecided line = true := by
  rw [undecided, h, Bool.true_or]

-- A review passes exactly if it comes to such a verdict.
theorem reviewPassed_iff : reviewPassed reviewText = true ↔
    ∃ before heading above line behind,
      Verdict (reviewLines reviewText) before heading above line behind := by
  have hmap : ((splitlines reviewText.toList).dropWhile fun line =>
      ! isAssessment (strip line)).map strip =
        (reviewLines reviewText).dropWhile fun line => ! isAssessment line := by
    rw [reviewLines, List.dropWhile_map]
    rfl
  have hscan : reviewPassed reviewText = verdictIn ((splitlines reviewText.toList).dropWhile
      fun line => ! isAssessment (strip line)) := rfl
  rw [hscan, verdictIn_iff, hmap]
  generalize hopened : (reviewLines reviewText).dropWhile (fun line => ! isAssessment line) = opened
  constructor
  · rintro ⟨line, behind, hdrop, haccepts⟩
    have hcut := List.takeWhile_append_dropWhile (p := undecided) (l := opened)
    rw [hdrop] at hcut
    have hundecided : ∀ other ∈ opened.takeWhile undecided, undecided other = true :=
      fun other hother => List.mem_takeWhile_imp hother
    obtain ⟨first, rest, rfl⟩ : ∃ first rest, opened = first :: rest := by
      cases opened with
      | nil => cases hdrop
      | cons first rest => exact ⟨first, rest, rfl⟩
    have hfirst : isAssessment first = true := by
      have hhead := List.head?_dropWhile_not (fun line => ! isAssessment line) (reviewLines reviewText)
      rw [hopened] at hhead
      simpa using hhead
    have hsome : ∃ other ∈ (first :: rest).takeWhile undecided, isAssessment other = true := by
      rw [List.takeWhile_cons_of_pos (undecided_of_isAssessment hfirst)]
      exact ⟨first, List.mem_cons_self, hfirst⟩
    obtain ⟨before, heading, above, htake, hopens, habove⟩ := last_assessment hundecided hsome
    rw [htake] at hcut hundecided
    refine ⟨before, heading, above, line, behind, ?_, hopens, fun other hother => ?_, habove,
      haccepts⟩
    · rw [hopened, ← hcut, List.append_assoc, List.cons_append]
    · exact hundecided other (List.mem_append_left _ hother)
  · rintro ⟨before, heading, above, line, behind, hverdict⟩
    have hundecided : ∀ other ∈ before ++ heading :: above, undecided other = true := by
      intro other hother
      rcases List.mem_append.mp hother with hother | hother
      · exact hverdict.before_undecided other hother
      rcases List.mem_cons.mp hother with rfl | hother
      · exact undecided_of_isAssessment hverdict.opens
      · rw [undecided, hverdict.above_silent other hother, Bool.or_true]
    refine ⟨line, behind, ?_, hverdict.accepts⟩
    have hcut : opened = (before ++ heading :: above) ++ line :: behind := by
      rw [← hopened, hverdict.cut, List.append_assoc, List.cons_append]
    rw [hcut, List.dropWhile_append_of_pos hundecided,
      List.dropWhile_cons_of_neg (by rw [hverdict.accepts.not_undecided]; exact Bool.false_ne_true)]

-- What a review with a verdict says in its assessments.
theorem Verdict.passes_iff (h : Verdict lines before heading above line behind) :
    (∃ assessment ∈ assessments lines, Passes assessment) ↔
      (∃ other ∈ before, isAssessment other = true ∧ Passes [other]) ∨
      ¬ Mentions "FAIL" (heading :: behind.takeWhile fun line => ! isHeading line) ∨
      ∃ assessment ∈ assessments behind, Passes assessment := by
  have hheading := isHeading_of_isAssessment h.opens
  obtain ⟨habovePass, haboveFail⟩ := not_mentions_silent h.above_silent
  have hnotHeading : ∀ other ∈ above ++ [line], (! isHeading other) = true := by
    intro other hother
    rcases List.mem_append.mp hother with hother | hother
    · rw [(silent_iff.mp (h.above_silent other hother)).1]
      rfl
    · rw [List.mem_singleton.mp hother, h.accepts.heading]
      rfl
  have htake : (above ++ line :: behind).takeWhile (fun line => ! isHeading line) =
      above ++ line :: behind.takeWhile fun line => ! isHeading line := by
    have happend : above ++ line :: behind = (above ++ [line]) ++ behind := by simp
    rw [happend, List.takeWhile_append_of_pos hnotHeading, List.append_assoc]
    rfl
  have hline : ¬ isAssessment line = true := by
    intro hopens
    have hplain := h.accepts.heading
    rw [isHeading_of_isAssessment hopens] at hplain
    cases hplain
  have hrest : assessments (above ++ line :: behind) = assessments behind := by
    rw [assessments_silent h.above_silent, assessments, if_neg hline]
  have hthis : Passes (heading :: (above ++ line :: behind.takeWhile fun line => ! isHeading line)) ↔
      ¬ Mentions "FAIL" (heading :: behind.takeWhile fun line => ! isHeading line) := by
    have hpass : Mentions "PASS"
        (heading :: (above ++ line :: behind.takeWhile fun line => ! isHeading line)) :=
      ⟨line, by simp, h.accepts.pass⟩
    rw [Passes, and_iff_right hpass, mentions_cons, mentions_append, mentions_cons, mentions_cons,
      h.accepts.fail, or_iff_right haboveFail, or_iff_right Bool.false_ne_true]
  rw [← assessments_dropWhile, h.cut, assessments_append hheading, assessments, if_pos h.opens,
    htake, hrest]
  simp only [List.mem_append, List.mem_cons, or_and_right, exists_or, exists_eq_left]
  rw [passes_undecided_iff h.before_undecided, hthis]

end Scan

section Gate

variable {disk : Disk} {artifacts : Artifacts}

theorem reviewPassed_of_touched (htouched : (deployFiles disk artifacts).1.touched ≠ []) :
    reviewPassed (artifacts.get "review") = true := by
  by_contra hblocked
  rw [deployFiles, if_neg hblocked] at htouched
  exact htouched rfl

-- A disk that takes every file that no other file is in the way of.
def obliging : Disk where
  base := ⟨.slash, ["app".toList]⟩
  resolve := fun path => .ok path.normalise
  write := fun stored target _ =>
    if Clear stored target then .ok () else .error ("Not a directory", none)
  repr := fun text => '\'' :: (text ++ ['\''])

def oneFile (reviewText : String) : Artifacts :=
  [("review", reviewText), ("implement", "--- FILE: main.py ---\npass\n--- END FILE ---")]

theorem touched_oneFile (h : reviewPassed reviewText = true) :
    (deployFiles obliging (oneFile reviewText)).1.touched ≠ [] := by
  have hreview : (oneFile reviewText).get "review" = reviewText := rfl
  have himplement : (oneFile reviewText).get "implement" =
      "--- FILE: main.py ---\npass\n--- END FILE ---" := rfl
  have hdocument : (oneFile reviewText).get "document" = "" := rfl
  have hfiles : (["implement", "document"].foldl (fun self key =>
      deployLines obliging (splitlines ((oneFile reviewText).get key).toList) {} self) {}) =
      { written := ["main.py".toList]
        touched := [⟨.slash, ["app".toList, "main.py".toList]⟩]
        stored := [(⟨.slash, ["app".toList, "main.py".toList]⟩, "pass".toList)] } := by
    rw [List.foldl_cons, List.foldl_cons, List.foldl_nil, himplement, hdocument]
    decide
  rw [deployFiles, hreview, if_pos h]
  simp only [hfiles]
  decide

-- A deployment that opens a file for writing has an assessment that passes, and stays inside the
-- project.
def Gated (reviewText : String) : Prop :=
  ∀ (disk : Disk) (artifacts : Artifacts), artifacts.get "review" = reviewText →
    (deployFiles disk artifacts).1.touched ≠ [] →
    (∃ assessment ∈ assessments (reviewLines reviewText), Passes assessment) ∧
      (deployFiles disk artifacts).1.StaysIn disk

theorem not_passes_iff {lines : List Line} :
    ¬ Passes lines ↔ (Mentions "PASS" lines → Mentions "FAIL" lines) := by
  rw [Passes, not_and_not_right]

-- A review is a gate exactly when it has no FAIL that the scan passes by.
theorem gated_iff (reviewText : String) : Gated reviewText ↔ ¬ HiddenFail reviewText := by
  constructor
  · rintro hgated ⟨before, heading, above, line, behind, hverdict, hfail, hbefore, hbehind⟩
    have hpassed := reviewPassed_iff.mpr ⟨before, heading, above, line, behind, hverdict⟩
    obtain ⟨other, hother, hopens, hpasses⟩ | hnone | ⟨other, hother, hpasses⟩ :=
      hverdict.passes_iff.mp (hgated obliging (oneFile reviewText) rfl (touched_oneFile hpassed)).1
    · exact not_passes_iff.mpr (hbefore other hother hopens) hpasses
    · exact hnone hfail
    · exact not_passes_iff.mpr (hbehind other hother) hpasses
  · rintro hshown disk artifacts rfl htouched
    refine ⟨?_, deployFiles_staysIn artifacts⟩
    obtain ⟨before, heading, above, line, behind, hverdict⟩ :=
      reviewPassed_iff.mp (reviewPassed_of_touched htouched)
    rw [hverdict.passes_iff]
    by_contra hnone
    simp only [not_or, not_exists, not_and, not_not] at hnone
    obtain ⟨hbefore, hfail, hbehind⟩ := hnone
    exact hshown ⟨before, heading, above, line, behind, hverdict, hfail,
      fun other hother hopens => not_passes_iff.mp (hbefore other hother hopens),
      fun other hother => not_passes_iff.mp (hbehind other hother)⟩

-- Style passes, security fails.
theorem failed_review_deploys :
    ¬ Gated "## Overall Assessment\nStyle: PASS\nSecurity: FAIL" := by
  intro h
  obtain ⟨assessment, hmem, hpasses⟩ :=
    (h obliging (oneFile _) rfl (touched_oneFile (by decide))).1
  revert assessment
  decide

end Gate

end EvoClaw.DevEngine
