import Afterlock.CaseStore

/-!
# Results of different cases

A result never takes the place of a file, since the numbers of the results of a case only grow
(`Kept`).  The files of a case are found by the beginning of their names, so that an export is exact
if and only if no case with results has an id that begins with the id of another case and a hyphen
(`keptApart_iff`).
-/

namespace Afterlock

namespace CaseStore

open Parse

/-! ### Names -/

section

variable {id c d : String} {n m : ℕ}

lemma isDigit_of_mem_padded {ch : Char} (h : ch ∈ padded n) : ch.isDigit = true := by
  rcases List.mem_append.1 h with h | h
  · rw [List.eq_of_mem_replicate h]
    decide
  · exact Text.isDigit_of_mem_toDigits h

/-- The numeral has its number. -/
lemma ofDigitChars_padded (n : ℕ) : Nat.ofDigitChars 10 (padded n) 0 = n := by
  have hzeros (k : ℕ) : Nat.ofDigitChars 10 (List.replicate k '0') 0 = 0 := by
    induction k with
    | zero => rfl
    | succ k ih =>
        rw [List.replicate_succ, Nat.ofDigitChars_cons]
        exact ih
  rw [padded, Nat.ofDigitChars_append, hzeros, Nat.ofDigitChars_ten_toDigits]

lemma padded_inj (h : padded n = padded m) : n = m := by
  rw [← ofDigitChars_padded n, h, ofDigitChars_padded]

lemma hyphen_notMem_padded : '-' ∉ padded n ++ ".json".toList := by
  rw [List.mem_append, not_or]
  refine ⟨fun h => ?_, by decide⟩
  exact absurd (isDigit_of_mem_padded h) (by decide)

lemma toList_resultName (id : String) (n : ℕ) :
    (resultName id n).toList = id.toList ++ '-' :: (padded n ++ ".json".toList) := by
  simp [resultName]

/-- The name of a result has one reading. -/
lemma resultName_inj (h : resultName c n = resultName d m) : c = d ∧ n = m := by
  have hlist := congrArg String.toList h
  rw [toList_resultName, toList_resultName] at hlist
  obtain ⟨hcd, hnm⟩ := Glob.append_sep_inj hlist hyphen_notMem_padded hyphen_notMem_padded
  exact ⟨String.toList_inj.1 hcd, padded_inj (List.append_cancel_right hnm)⟩

/-- A result is no record of a verification: a digit stands before its extension. -/
lemma isVerification_resultName : isVerification (resultName id n) = false := by
  have hne : padded n ≠ [] := fun h => Nat.toDigits_ne_nil (List.append_eq_nil_iff.1 h).2
  obtain ⟨ds, e, hpadded⟩ := (List.eq_nil_or_concat (padded n)).resolve_left hne
  have hdigit : e.isDigit = true := isDigit_of_mem_padded (n := n) (by simp [hpadded])
  rw [← Bool.not_eq_true, isVerification, List.isSuffixOf_iff_suffix]
  rintro ⟨t, ht⟩
  have hsuffix : verificationSuffix = ".verificatio".toList ++ ['n'] ++ ".json".toList := by decide
  rw [toList_resultName, hpadded, hsuffix, List.concat_eq_append] at ht
  have hjson : t ++ ".verificatio".toList ++ ['n'] ++ ".json".toList =
      id.toList ++ '-' :: ds ++ [e] ++ ".json".toList := by simpa using ht
  have hlast := (List.append_inj' (List.append_cancel_right hjson) rfl).2
  obtain rfl : 'n' = e := by simpa using hlast
  exact absurd hdigit (by decide)

lemma isVerification_withSuffix (name : String) :
    isVerification (withSuffix name verificationSuffix) = true := by
  rw [isVerification, List.isSuffixOf_iff_suffix, withSuffix, String.toList_ofList]
  exact List.suffix_append _ _

lemma idChar_of_caseIdMatches (h : caseIdMatches id = true) {ch : Char} (hch : ch ∈ id.toList) :
    ch = '\n' ∨ idChar ch = true := by
  obtain ⟨body, hbody, hmem⟩ : ∃ body, (if id.toList.getLast? = some '\n' then id.toList.dropLast
      else id.toList) = body ∧ (ch = '\n' ∨ ch ∈ body) := by
    refine ⟨_, rfl, ?_⟩
    split_ifs with hlast
    · rw [← List.dropLast_append_getLast? _ hlast] at hch
      simpa [or_comm] using hch
    · exact Or.inr hch
  refine hmem.imp_right fun hmem => ?_
  simp only [caseIdMatches, hbody] at h
  cases body with
  | nil => cases hmem
  | cons c cs =>
      simp only [Bool.and_eq_true] at h
      rcases List.mem_cons.1 hmem with rfl | hmem
      · have hhead := h.1.1
        simp only [idHead, Bool.or_eq_true] at hhead
        rcases hhead with hhead | hhead <;> simp [idChar, hhead]
      · exact List.all_eq_true.1 h.1.2 ch hmem

lemma literal_of_caseIdMatches (h : caseIdMatches id = true) :
    Glob.Literal (id.toList ++ ['-']) := by
  have hnot : ∀ ch, ch ≠ '\n' → idChar ch = false → ch ≠ '-' → ch ∉ id.toList ++ ['-'] := by
    intro ch hline hchar hhyphen hmem
    rcases List.mem_append.1 hmem with hmem | hmem
    · rcases idChar_of_caseIdMatches h hmem with rfl | hid
      · exact hline rfl
      · exact absurd (hid.symm.trans hchar) (by decide)
    · exact hhyphen (List.mem_singleton.1 hmem)
  exact ⟨hnot '*' (by decide) (by decide) (by decide), hnot '?' (by decide) (by decide) (by decide)⟩

/-- A case finds the results of the cases whose ids begin with its own and a hyphen. -/
lemma fnmatch_resultName (hc : caseIdMatches c = true) :
    Glob.fnmatch (resultPattern c) (resultName d n).toList = true ↔
      c = d ∨ Text.hasPrefix (c ++ "-") d = true := by
  have hpattern : resultPattern c = (c.toList ++ ['-']) ++ '*' :: ".json".toList := by
    simp [resultPattern]
  rw [hpattern, Glob.fnmatch_between (literal_of_caseIdMatches hc) (by unfold Glob.Literal; decide),
    toList_resultName]
  have hpre : Text.hasPrefix (c ++ "-") d = true ↔ c.toList ++ ['-'] <+: d.toList := by
    rw [Text.hasPrefix, List.isPrefixOf_iff_prefix, String.toList_append]
    rfl
  rw [hpre]
  constructor
  · rintro ⟨mid, h⟩
    rw [List.append_assoc, List.append_assoc] at h
    refine (Glob.prefix_of_append_sep h.symm hyphen_notMem_padded).imp_left fun he => ?_
    exact String.toList_inj.1 he
  · rintro (rfl | ⟨rest, hd⟩)
    · exact ⟨padded n, by simp⟩
    · exact ⟨rest ++ '-' :: padded n, by simp [← hd]⟩

end

/-! ### The files of a case -/

section

variable {h : Home} {id : String} {name : String} {doc : Document}

/-- A file that the commands take for a result of a case. -/
def found (id : String) (f : String × Document) : Bool :=
  Glob.fnmatch (resultPattern id) f.1.toList && !isVerification f.1

lemma resultsOf_eq (h : Home) (id : String) :
    h.resultsOf id = h.results.rows.filter (found id) := by
  rw [Home.resultsOf, List.filter_filter]
  exact List.filter_congr fun f _ => Bool.and_comm _ _

lemma rows_put_of_fresh {t : Table (Prod.fst : String × Document → String)}
    (hfresh : t.contains name = false) :
    (t.put (name, doc)).rows = (name, doc) :: t.rows := by
  refine congrArg ((name, doc) :: ·) (List.filter_eq_self.2 fun f hf => ?_)
  simpa using Table.contains_eq_false_iff.1 hfresh f hf

/-- A new file is added to the files of the cases that find it. -/
lemma resultsOf_put (h' : Home) (h'eq : h'.results = h.results.put (name, doc))
    (hfresh : h.results.contains name = false) (id : String) :
    h'.resultsOf id =
      if found id (name, doc) then (name, doc) :: h.resultsOf id else h.resultsOf id := by
  rw [resultsOf_eq, resultsOf_eq, h'eq, rows_put_of_fresh hfresh, List.filter_cons]

/-- The record of a verification is no result of a case. -/
lemma length_resultsOf_verification (h' : Home)
    (h'eq : h'.results = h.results.put (name, doc)) (hname : isVerification name = true) (id : String) :
    (h'.resultsOf id).length = (h.resultsOf id).length := by
  rw [resultsOf_eq, resultsOf_eq, h'eq]
  refine (Table.perm_filter_rows fun f hf => ?_).length_eq
  have hne : f.1 ≠ name := by
    rintro rfl
    simp [found, hname] at hf
  rw [Table.mem_put]
  exact ⟨fun hf => hf.elim (fun he => absurd (congrArg Prod.fst he) hne) And.left,
    fun hf => Or.inr ⟨hf, hne⟩⟩

end

/-! ### Results are kept -/

/-- The results that were stored are in the files, with their names. -/
structure Kept (cases : Table Case.id) (stored : List Stored) (h : Home) : Prop where
  cases_eq : h.cases = cases
  results : ∀ name doc, isVerification name = false →
    ((name, doc) ∈ h.results ↔ ∃ x ∈ stored, x.name = name ∧ doc = .result x.bundle)
  numbered : ∀ x ∈ stored, (∃ c ∈ cases, c.id = x.case) ∧
    ∃ n, x.name = resultName x.case n ∧ n ≤ (h.resultsOf x.case).length
  isNew : ∀ x ∈ stored, x.isNew = true

lemma kept_initial (cases : Table Case.id) : Kept cases [] (.initial cases) where
  cases_eq := rfl
  results name doc _ := by simp [Home.initial]
  numbered x hx := absurd hx List.not_mem_nil
  isNew x hx := absurd hx List.not_mem_nil

section

variable {cases : Table Case.id} {stored : List Stored} {h : Home}

/-- The next result of a case has a name that no file has. -/
lemma Kept.fresh (hk : Kept cases stored h) (id : String) :
    h.results.contains (resultName id ((h.resultsOf id).length + 1)) = false := by
  rw [Table.contains_eq_false_iff]
  rintro ⟨name, doc⟩ hmem rfl
  obtain ⟨x, hx, hname, -⟩ := (hk.results _ doc isVerification_resultName).1 hmem
  obtain ⟨-, n, hn, hle⟩ := hk.numbered x hx
  obtain ⟨hcase, rfl⟩ := resultName_inj (hn.symm.trans hname)
  rw [hcase] at hle
  omega

lemma Kept.store (hk : Kept cases stored h) {c : Case} (hc : c ∈ cases) (bundle : ResultBundle) :
    Kept cases (stored ++ [(storeResult h c.id bundle).1]) (storeResult h c.id bundle).2 := by
  have hfresh := hk.fresh c.id
  have hput := resultsOf_put (storeResult h c.id bundle).2 rfl hfresh
  -- the new file counts for its own case, so that the next number is fresh
  have hown : ((storeResult h c.id bundle).2.resultsOf c.id).length =
      (h.resultsOf c.id).length + 1 := by
    rw [hput, found, isVerification_resultName, (fnmatch_resultName c.valid).2 (Or.inl rfl)]
    rfl
  refine ⟨hk.cases_eq, fun name doc hname => ?_, fun x hx => ?_, fun x hx => ?_⟩
  · show (name, doc) ∈ h.results.put _ ↔ _
    rw [Table.mem_put_of_fresh (Table.contains_eq_false_iff.1 hfresh), hk.results name doc hname]
    simp only [List.mem_append, List.mem_singleton, or_and_right, exists_or, exists_eq_left,
      Prod.mk.injEq]
    rw [or_comm]
    exact or_congr_right (and_congr_left' eq_comm)
  · rcases List.mem_append.1 hx with hx | hx
    · obtain ⟨hcase, n, hn, hle⟩ := hk.numbered x hx
      refine ⟨hcase, n, hn, hle.trans ?_⟩
      rw [hput]
      split_ifs
      · exact Nat.le_succ _
      · exact le_rfl
    · obtain rfl := List.mem_singleton.1 hx
      exact ⟨⟨c, hc, rfl⟩, _, rfl, hown.ge⟩
  · rcases List.mem_append.1 hx with hx | hx
    · exact hk.isNew x hx
    · obtain rfl := List.mem_singleton.1 hx
      show (!h.results.contains _) = true
      rw [hfresh]
      rfl

lemma Kept.verify (hk : Kept cases stored h) (target : Target) (record : Option Json) :
    Kept cases stored (cmdVerify h target record) := by
  unfold cmdVerify
  split
  · rename_i name bundle record _
    split_ifs
    · have hrecord := isVerification_withSuffix name
      refine ⟨hk.cases_eq, fun name' doc hname => ?_, fun x hx => ?_, hk.isNew⟩
      · rw [← hk.results name' doc hname, Table.mem_put]
        have hne : name' ≠ withSuffix name verificationSuffix := by
          rintro rfl
          exact absurd (hname.symm.trans hrecord) (by decide)
        simp [hne]
      · obtain ⟨hcase, n, hn, hle⟩ := hk.numbered x hx
        refine ⟨hcase, n, hn, hle.trans_eq ?_⟩
        exact (length_resultsOf_verification { h with results := _ } rfl hrecord _).symm
    · exact hk
  · exact hk

lemma loadInput_eq_some (hcases : h.cases = cases) {id : String} {raw : Json.Fields} :
    loadInput h id = some raw ↔ ∃ c ∈ cases, c.id = id ∧ raw = c.input := by
  subst hcases
  unfold loadInput
  constructor
  · intro hload
    rw [Option.ite_none_right_eq_some, Option.map_eq_some_iff] at hload
    obtain ⟨-, c, hc, rfl⟩ := hload
    obtain ⟨hmem, hid⟩ := Table.get?_eq_some_iff.1 hc
    exact ⟨c, hmem, hid, rfl⟩
  · rintro ⟨c, hc, rfl, rfl⟩
    rw [if_pos c.valid, Table.get?_key hc]
    rfl

/-- The id of a case is the case id of its input. -/
lemma caseId_of_parse {c : Case} {remediation : Option Json} {inp : AnalysisInput}
    (hinp : parseAnalysisInput (.obj (analyzed c.input remediation)) = .ok inp) :
    inp.caseId = c.id := by
  have hget : Json.get (analyzed c.input remediation) "case_id" = .str c.id := by
    rw [← c.named]
    cases remediation with
    | none => rfl
    | some r => exact get_withRemediation (by decide)
  simp only [parseAnalysisInput, Parse.bind_eq_ok, Parse.pure_eq_ok] at hinp
  obtain ⟨m, hm, _, -, _, -, _, -, _, -, _, -, _, -, _, -, _, -, _, -, _, -, _, -, _, -, _, -, _, -, _, -,
    _, -, _, -, _, -, _, -, _, -, _, -, _, -, _, -, _, -, _, -, cid, hcid, _, -, _, -, rfl⟩ := hinp
  obtain rfl : analyzed c.input remediation = m := Except.ok.inj hm
  have hstr := (Reference.reqStr_eq_ok hcid).1
  rw [hget] at hstr
  exact (Json.str.inj hstr).symm

/-! ### Runs -/

/-- An analysis of the case that goes through is among the commands. -/
def HasResult (c : Case) (commands : List Command) : Prop :=
  ∃ remediation mode inp, .analyze c.id remediation mode ∈ commands ∧
    parseAnalysisInput (.obj (analyzed c.input remediation)) = .ok inp

lemma hasResult_cons {c : Case} {command : Command} {commands : List Command} :
    HasResult c (command :: commands) ↔ HasResult c [command] ∨ HasResult c commands := by
  unfold HasResult
  simp only [List.mem_cons, List.not_mem_nil, or_false, or_and_right, exists_or]

lemma loadInput_case (hcases : h.cases = cases) {c : Case} (hc : c ∈ cases) :
    loadInput h c.id = some c.input :=
  (loadInput_eq_some hcases).2 ⟨c, hc, rfl, rfl⟩

/-- What `cmd_analyze` does: it stores a result of the case, or nothing. -/
lemma cmdAnalyze_cases (hcases : h.cases = cases) (id : String) (remediation : Option Json)
    (mode : Mode) :
    ((∀ c ∈ cases, c.id = id → ∀ inp,
        parseAnalysisInput (.obj (analyzed c.input remediation)) ≠ .ok inp) ∧
      cmdAnalyze h id remediation mode = (none, h)) ∨
    ∃ c ∈ cases, c.id = id ∧ ∃ inp,
      parseAnalysisInput (.obj (analyzed c.input remediation)) = .ok inp ∧
      cmdAnalyze h id remediation mode = (some (storeResult h c.id (analyze inp mode)).1,
        (storeResult h c.id (analyze inp mode)).2) := by
  cases hload : loadInput h id with
  | none =>
      refine Or.inl ⟨fun c hc he => ?_, by simp only [cmdAnalyze, hload]⟩
      rw [← he, loadInput_case hcases hc] at hload
      cases hload
  | some raw =>
      obtain ⟨c, hc, rfl, rfl⟩ := (loadInput_eq_some hcases).1 hload
      cases hparse : parseAnalysisInput (.obj (analyzed c.input remediation)) with
      | error e =>
          refine Or.inl ⟨fun d hd he inp hinp => ?_, by simp only [cmdAnalyze, hload, hparse]⟩
          obtain rfl := Table.eq_of_key_eq hd hc he
          cases hparse.symm.trans hinp
      | ok inp =>
          refine Or.inr ⟨c, hc, rfl, inp, hparse, ?_⟩
          simp only [cmdAnalyze, hload, hparse, caseId_of_parse hparse]

lemma Kept.step (hk : Kept cases stored h) (command : Command) :
    Kept cases (stored ++ (home.step h command).1.toList) (home.step h command).2 := by
  cases command with
  | verify target record =>
      show Kept cases (stored ++ []) (cmdVerify h target record)
      rw [List.append_nil]
      exact hk.verify target record
  | analyze id remediation mode =>
      show Kept cases (stored ++ (cmdAnalyze h id remediation mode).1.toList)
        (cmdAnalyze h id remediation mode).2
      rcases cmdAnalyze_cases hk.cases_eq id remediation mode with
        ⟨-, he⟩ | ⟨c, hc, -, inp, -, he⟩ <;> rw [he]
      · rw [Option.toList_none, List.append_nil]
        exact hk
      · exact hk.store hc _

/-- A command stores a result of a case if it analyses the case. -/
lemma stores_iff (hcases : h.cases = cases) {c : Case} (hc : c ∈ cases) (command : Command) :
    (∃ x, (home.step h command).1 = some x ∧ x.case = c.id) ↔ HasResult c [command] := by
  cases command with
  | verify target record =>
      constructor
      · rintro ⟨x, hx, -⟩
        cases hx
      · rintro ⟨_, _, _, hmem, -⟩
        cases List.mem_singleton.1 hmem
  | analyze id remediation mode =>
      show (∃ x, (cmdAnalyze h id remediation mode).1 = some x ∧ x.case = c.id) ↔ _
      rcases cmdAnalyze_cases hcases id remediation mode with
        ⟨hnot, he⟩ | ⟨d, hd, rfl, inp, hinp, he⟩ <;> rw [he]
      · constructor
        · rintro ⟨x, hx, -⟩
          cases hx
        · rintro ⟨_, _, inp, hmem, hinp⟩
          cases List.mem_singleton.1 hmem
          exact absurd hinp (hnot c hc rfl inp)
      · constructor
        · rintro ⟨x, hx, hcase⟩
          obtain rfl := Option.some.inj hx
          obtain rfl := Table.eq_of_key_eq hd hc hcase
          exact ⟨remediation, mode, inp, List.mem_singleton.2 rfl, hinp⟩
        · rintro ⟨_, _, _, hmem, -⟩
          refine ⟨_, rfl, ?_⟩
          injection List.mem_singleton.1 hmem with hid
          exact hid.symm

/-- What a run has stored is in the files, and it is of the cases that were analysed. -/
lemma kept_run (hk : Kept cases stored h) (commands : List Command) :
    Kept cases (stored ++ (home.answers h commands).reduceOption) (home.final h commands) ∧
      ∀ c ∈ cases, (∃ x ∈ (home.answers h commands).reduceOption, x.case = c.id) ↔
        HasResult c commands := by
  induction commands generalizing h stored with
  | nil =>
      refine ⟨by simpa using hk, fun c _ => ?_⟩
      simp [HasResult]
  | cons command commands ih =>
      obtain ⟨hkept, hiff⟩ := ih (hk.step command)
      have hcons : (home.answers h (command :: commands)).reduceOption =
          (home.step h command).1.toList ++
            (home.answers (home.step h command).2 commands).reduceOption := by
        rw [Machine.answers_cons]
        cases (home.step h command).1 <;> rfl
      rw [hcons, Machine.final_cons, ← List.append_assoc]
      refine ⟨hkept, fun c hc => ?_⟩
      rw [hasResult_cons, ← stores_iff hk.cases_eq hc, ← hiff c hc]
      simp only [List.mem_append, Option.mem_toList, or_and_right, exists_or]

end

/-! ### Exports -/

/-- Results are kept apart: no result took the place of a file, and an export of a case has the
input of the case and the results that were stored for it, and nothing else. -/
def KeptApart (cases : Table Case.id) (commands : List Command) : Prop :=
  (∀ x ∈ storedBy cases commands, x.isNew = true) ∧
    ∀ c ∈ cases, ∀ digest, ∃ e,
      cmdExport digest (home.final (.initial cases) commands) c.id = some e ∧
        ∀ f, f ∈ e.files ↔ f = ("input.json", .input c.input) ∨
          ∃ x ∈ storedBy cases commands, x.case = c.id ∧
            f = ("results/" ++ x.name, .result x.bundle)

section

variable {cases : Table Case.id} {commands : List Command}

/-- An export has the results whose names the pattern of the case matches. -/
lemma export_files (commands : List Command) (digest : Document → String) {c : Case}
    (hc : c ∈ cases) : ∃ e,
    cmdExport digest (home.final (.initial cases) commands) c.id = some e ∧
      ∀ f, f ∈ e.files ↔ f = ("input.json", .input c.input) ∨
        ∃ x ∈ storedBy cases commands, (c.id = x.case ∨ Text.hasPrefix (c.id ++ "-") x.case = true) ∧
          f = ("results/" ++ x.name, .result x.bundle) := by
  have hk : Kept cases (storedBy cases commands) (home.final (.initial cases) commands) :=
    (kept_run (kept_initial cases) commands).1
  refine ⟨_, by rw [cmdExport, loadInput_case hk.cases_eq hc]; rfl, fun f => ?_⟩
  simp only [List.mem_cons, List.mem_map, List.mem_filter, Text.mem_sortedBy]
  refine or_congr_right ⟨?_, ?_⟩
  · rintro ⟨⟨name, doc⟩, ⟨⟨hmem, hmatch⟩, hname⟩, rfl⟩
    obtain ⟨x, hx, rfl, rfl⟩ := (hk.results name doc (by simpa using hname)).1 hmem
    obtain ⟨-, n, hn, -⟩ := hk.numbered x hx
    refine ⟨x, hx, ?_, rfl⟩
    rw [hn] at hmatch
    exact (fnmatch_resultName c.valid).1 hmatch
  · rintro ⟨x, hx, hmatch, rfl⟩
    obtain ⟨-, n, hn, -⟩ := hk.numbered x hx
    have hname : isVerification x.name = false := hn ▸ isVerification_resultName
    refine ⟨(x.name, .result x.bundle), ⟨⟨(hk.results _ _ hname).2 ⟨x, hx, rfl, rfl⟩, ?_⟩, ?_⟩, rfl⟩
    · rw [hn]
      exact (fnmatch_resultName c.valid).2 hmatch
    · simp [hname]

lemma isNew_of_mem_storedBy {x : Stored} (hx : x ∈ storedBy cases commands) : x.isNew = true :=
  (kept_run (kept_initial cases) commands).1.isNew x hx

/-- A result of a case whose id begins with the id of another and a hyphen is exported with both. -/
lemma not_keptApart {c d : Case} (hc : c ∈ cases) (hd : d ∈ cases)
    (hresult : HasResult d commands) (hpre : Text.hasPrefix (c.id ++ "-") d.id = true) :
    ¬ KeptApart cases commands := by
  rintro ⟨-, hexport⟩
  obtain ⟨hk, hstored⟩ := kept_run (kept_initial cases) commands
  obtain ⟨x, hx, hxd⟩ := (hstored d hd).2 hresult
  obtain ⟨e, he, hfiles⟩ := hexport c hc fun _ => ""
  obtain ⟨e', he', hfiles'⟩ := export_files commands (fun _ => "") hc
  obtain rfl := Option.some.inj (he.symm.trans he')
  have hin := (hfiles' _).2 (Or.inr ⟨x, hx, Or.inr (hxd ▸ hpre), rfl⟩)
  rcases (hfiles _).1 hin with hinput | ⟨y, hy, hyc, hyx⟩
  · cases (Prod.mk.inj hinput).2
  · -- a name has one reading, so the result would be of both cases
    obtain ⟨-, n, hn, -⟩ := hk.numbered x hx
    obtain ⟨-, m, hm, -⟩ := hk.numbered y hy
    have hname : x.name = y.name := (String.append_right_inj "results/").1 (Prod.mk.inj hyx).1
    have hcase := (resultName_inj (hn.symm.trans (hname.trans hm))).1
    have hdc : d.id = c.id := hxd.symm.trans (hcase.trans hyc)
    obtain ⟨t, ht⟩ := Text.hasPrefix_iff.1 hpre
    have hlen := congrArg (fun s => s.toList.length) (hdc.symm.trans ht)
    simp only [String.toList_append, List.length_append] at hlen
    have hhyphen : "-".toList.length = 1 := rfl
    omega

/-- Results are kept apart exactly if no case that has a result has an id that begins with the id of
another case and a hyphen. -/
theorem keptApart_iff (cases : Table Case.id) (commands : List Command) :
    KeptApart cases commands ↔ ∀ c ∈ cases, ∀ d ∈ cases, HasResult d commands →
      Text.hasPrefix (c.id ++ "-") d.id = false := by
  constructor
  · intro h c hc d hd hresult
    by_contra hpre
    exact not_keptApart hc hd hresult (by simpa using hpre) h
  · refine fun h => ⟨fun x hx => isNew_of_mem_storedBy hx, fun c hc digest => ?_⟩
    obtain ⟨e, he, hfiles⟩ := export_files commands digest hc
    refine ⟨e, he, fun f => (hfiles f).trans (or_congr_right ?_)⟩
    refine exists_congr fun x => and_congr_right fun hx => and_congr_left' ?_
    obtain ⟨hk, hstored⟩ := kept_run (kept_initial cases) commands
    obtain ⟨⟨d, hd, hdx⟩, -⟩ := hk.numbered x hx
    have hresult := (hstored d hd).1 ⟨x, hx, hdx.symm⟩
    have hpre := h c hc d hd hresult
    rw [hdx] at hpre
    simp only [hpre, Bool.false_eq_true, or_false]
    exact eq_comm

end

namespace Sample

open Afterlock.Sample

/-- An input of a case. -/
def inputOf (id : String) : Json.Fields :=
  [("schema", .str analysisInputSchema), ("case_id", .str id), ("cluster_id", .str "cluster"),
    ("analysis_time", .int 100),
    ("profile", .obj [("id", .str "profile"), ("kubernetes_version", .str "1"),
      ("api_audiences", texts ["api"]), ("projected_token_ttl_seconds", .int 10)]),
    ("inventory", .obj []), ("objectives", .arr [noSecretRead "o" "n" "x"])]

def caseOf (id : String) (h : caseIdMatches id = true) : Case := ⟨id, inputOf id, h, rfl⟩

lemma valid_shorter : caseIdMatches "a" = true := by decide

lemma valid_longer : caseIdMatches "a-b" = true := by decide

def shorter : Case := caseOf "a" valid_shorter

def longer : Case := caseOf "a-b" valid_longer

lemma ids_nodup : ([shorter, longer].map Case.id).Nodup := by decide

def twoCases : Table Case.id := ⟨[shorter, longer], ids_nodup⟩

end Sample

/-- The export of the case `a` has the result of the case `a-b`. -/
theorem longer_not_keptApart : ¬ KeptApart Sample.twoCases [.analyze "a-b" none .full] := by
  refine not_keptApart (c := Sample.shorter) (d := Sample.longer) List.mem_cons_self
    (List.mem_cons_of_mem _ List.mem_cons_self) ?_ (by decide)
  obtain ⟨inp, hinp, -⟩ := Afterlock.Sample.accepted (.obj (Sample.inputOf "a-b"))
    (p := fun _ => true) (by decide +kernel)
  exact ⟨none, .full, inp, List.mem_cons_self, hinp⟩

end CaseStore

end Afterlock
