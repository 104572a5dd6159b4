/-
  MiniLisp.Proofs.CommandLine.Reports

  What the command line reports of the way in which a program ends.

  The command line prints the value of each form where running a text collects
  them, and ends as that does (`outcome_showText`), unless standard output refuses
  a line. Of the faults that a text can stop at, the limit on digits is the only
  one that is neither of the language nor of depth (`isReported_iff_of_ofText`).
  So that limit and lines that are refused are what the command line does not
  report. A numeral of more than `maxDigits` digits is a text that stops at the
  limit (`read_of_long_numeral`, `run_of_long_numeral`).
-/
import MiniLisp.Proofs.CommandLine.Course
import MiniLisp.Proofs.Session.Soundness

namespace MiniLisp

/-! ## Numerals that are too long -/

/-- A text that is one numeral of too many digits is not read. -/
theorem read_of_long_numeral [Host] {cs : List CodePoint}
    (hdigits : ∀ c ∈ cs, Text.isDigit c = true)
    (hword : ∀ c ∈ cs, Lexer.isWordChar c = true) (hlong : Text.maxDigits < cs.length)
    (depth : Nat) : read (depth + 1) ⟨cs⟩ = .error (.longNumeral cs.length) := by
  have hne : cs ≠ [] := List.ne_nil_of_length_pos (Nat.zero_lt_of_lt hlong)
  obtain ⟨n, hn⟩ := Text.exists_positional_iff.mpr hdigits
  have hsigned : Text.Signed (Text.ofList cs).toList .absent cs n := ⟨rfl, hne, hn⟩
  have hlong' : Datum.ofWord ⟨cs⟩ = .error (.longNumeral cs.length) := by
    rw [Datum.ofWord_of_signed hsigned, if_neg (Nat.not_le.mpr hlong)]
  refine read_of_refused_lexeme (.word hne hword) ?_
  rw [TokenStream.readDatum_word, hlong']

/-! ## Faults that are reported -/

/-- The command line reports the fault itself. -/
def Fault.isReported (fault : Fault) : Bool :=
  fault.kind.isOfLanguage || fault.kind = .depth

theorem Fault.message_of_isReported {fault : Fault} (h : fault.isReported = true) :
    fault.message = "AAQZ " ++ fault.words := by
  rw [isReported] at h
  rw [message, if_pos h, diagnostic]

/-- The limit on digits is the only fault of texts that is not reported. -/
theorem Fault.isReported_iff_of_ofText {fault : Fault} (h : fault.OfText) :
    fault.isReported = true ↔ fault.kind ≠ .digits := by
  rw [isReported]
  obtain rfl | ⟨hkind, -⟩ := h
  · decide
  · cases hcase : fault.kind with
    | form | name | operand | arity | zeroDivision | user | digits => decide
    | unknownPrimitive | unprintable | foreign | bracket | fixed | depth | encoding =>
      rw [hcase] at hkind
      cases hkind

namespace CommandLine

/-! ## From a run to its report -/

section

variable {refusal? : Text → Option Text} {r : Run Unit} {fault : Fault}

/-- What is reported of a run when no records are shown. -/
def reported (refusal? : Text → Option Text) (r : Run Unit) : Report :=
  conclude false (r.act (.start ⟨refusal?, []⟩))

/-- Only what standard output admits of a run matters, and however that ends, the lines that it
    printed are the output. -/
theorem reported_eq (refusal? : Text → Option Text) (r : Run Unit) :
    reported refusal? r =
      match (r.admitted refusal?).outcome with
      | .ok () => ⟨Text.asLines (r.admitted refusal?).lines, "", .ok 0⟩
      | .error fault =>
        if fault.isReported then
          ⟨Text.asLines (r.admitted refusal?).lines, fault.message.escaped ++ "\n", .ok 1⟩
        else ⟨Text.asLines (r.admitted refusal?).lines, "", .error (.machinery fault)⟩ := by
  have hact : r.act (.start ⟨refusal?, []⟩) = Acting.ofExcept (r.admitted refusal?).outcome
      (Console.after (.start ⟨refusal?, []⟩) (r.admitted refusal?).events) := rfl
  rw [reported, hact]
  cases (r.admitted refusal?).outcome with
  | ok _ => rfl
  | error fault =>
    have hstderr : (Text.asLines [fault.message]).escaped = fault.message.escaped ++ "\n" := by
      have hbreak : Text.escaped "\n" = "\n" := by decide
      rw [← hbreak, ← Text.escaped_append]
      simp [Text.asLines]
    dsimp only
    rw [← hstderr]
    rfl

theorem reported_of_ok (h : (r.admitted refusal?).outcome = .ok ()) :
    reported refusal? r = ⟨Text.asLines (r.admitted refusal?).lines, "", .ok 0⟩ := by
  rw [reported_eq, h]

theorem reported_of_isReported (h : (r.admitted refusal?).outcome = .error fault)
    (hreported : fault.isReported = true) :
    reported refusal? r =
      ⟨Text.asLines (r.admitted refusal?).lines, fault.message.escaped ++ "\n", .ok 1⟩ := by
  rw [reported_eq, h]
  exact if_pos hreported

theorem reported_of_not_isReported (h : (r.admitted refusal?).outcome = .error fault)
    (hreported : fault.isReported = false) :
    reported refusal? r =
      ⟨Text.asLines (r.admitted refusal?).lines, "", .error (.machinery fault)⟩ := by
  rw [reported_eq, h]
  exact if_neg (Bool.not_eq_true _ ▸ hreported)

end

theorem depth_of_unset {vars : Variables} (hlimit : vars "AAQZ_RECURSION_LIMIT" = none) :
    depth vars = .ok Settings.defaultDepth := by
  have hinteger : Settings.integer vars "AAQZ_RECURSION_LIMIT" Settings.defaultDepth =
      Settings.defaultDepth := by
    rw [Settings.integer, hlimit]
    rfl
  rw [depth, Settings.depth, hinteger]
  rfl

/-- Before the mark, each argument is put into its class. -/
theorem classifyAll_cons {arg : Text} {rest : List Text} {c : ArgClass}
    {classes : List (Text × ArgClass)} (hmark : arg ≠ "--") (harg : classify arg = .ok c)
    (hrest : classifyAll rest = .ok classes) :
    classifyAll (arg :: rest) = .ok ((arg, c) :: classes) := by
  rw [classifyAll, if_neg hmark, harg, hrest]
  rfl

/-- A program text that does not start with a dash can be given on the command line. -/
theorem request_expr {text : Text} (h : text.toList.head? ≠ some (.char '-')) :
    request ["-e", text] = .ok (.options ⟨none, some (.value text), none⟩) := by
  have hmark : text ≠ "--" := by
    rintro rfl
    exact h rfl
  have hplain : classify text = .ok .plain := by
    rw [classify]
    simp [h]
  have hclasses : classifyAll ["-e", text] =
      .ok [("-e", .switch .expr true none), (text, .plain)] :=
    classifyAll_cons (by decide) rfl (classifyAll_cons hmark hplain rfl)
  rw [request, hclasses]
  rfl

section

variable [Host]

/-- Printing the value of each form ends as collecting the values does. -/
theorem outcome_showText (depth : Nat) (text : Text) :
    (showText depth text : Run Unit).outcome = (runText depth text).outcome.map fun _ => () := by
  rw [showText_eq, runText_eq]
  cases read depth text with
  | error fault => rfl
  | ok forms =>
    obtain ⟨cs, broken, ending, hcourse⟩ := exists_course depth forms
    show (showForms depth forms).outcome = (runForms depth forms).outcome.map fun _ => ()
    rw [(showForms_of_course hcourse).2, hcourse.runForms_eq.2]
    cases ending with
    | error fault => rfl
    | ok _ => rfl

variable {argv : List Text} {around : Surroundings} {o : Options} {text : Text} {shown : Nat}

/-- Without records, the command line reports a run of the program text. -/
theorem run_eq_reported {n : Nat} (hrequest : request argv = .ok (.options o))
    (hsource : source o around = .ok text) (hdepth : depth around.vars = .ok n)
    (hlevel : level o around.vars = .ok shown) (hquiet : Settings.debugLevel < shown) :
    run argv around = reported around.refusal? (showText n text) := by
  have hprogram : runProgram o around = .ok (reported around.refusal? (showText n text)) := by
    rw [runProgram, hlevel, hsource, hdepth, reported, act_showText]
    show Except.ok (conclude (decide (shown ≤ Settings.debugLevel)) _) = _
    rw [decide_eq_false (Nat.not_le.mpr hquiet)]
  rw [run, hrequest]
  dsimp only
  rw [hprogram]

/-- A program text that is one numeral of too many digits is not reported. -/
theorem run_of_long_numeral {cs : List CodePoint} (hdigits : ∀ c ∈ cs, Text.isDigit c = true)
    (hword : ∀ c ∈ cs, Lexer.isWordChar c = true) (hlong : Text.maxDigits < cs.length)
    (hlimit : around.vars "AAQZ_RECURSION_LIMIT" = none)
    (hquiet : Settings.debugLevel < Settings.level around.vars) :
    (run ["-e", ⟨cs⟩] around).ending = .error (.machinery (.longNumeral cs.length)) ∧
      (run ["-e", ⟨cs⟩] around).stderr = "" := by
  have hhead : (Text.ofList cs).toList.head? ≠ some (.char '-') := by
    intro hhead
    have hdash := hdigits '-' (List.mem_of_head? hhead)
    rw [Text.Numeral.isDigit_sign.2] at hdash
    cases hdash
  have hread : read Settings.defaultDepth ⟨cs⟩ = .error (.longNumeral cs.length) :=
    read_of_long_numeral hdigits hword hlong 9999
  have hshow :
      (showText Settings.defaultDepth ⟨cs⟩ : Run Unit) = .fail (.longNumeral cs.length) := by
    rw [showText_eq, hread]
    rfl
  have houtcome : (Run.admitted around.refusal? (showText Settings.defaultDepth ⟨cs⟩)).outcome =
      .error (.longNumeral cs.length) := by
    rw [hshow]
    rfl
  rw [run_eq_reported (request_expr hhead) rfl (depth_of_unset hlimit) rfl hquiet,
    reported_of_not_isReported houtcome rfl]
  exact ⟨rfl, rfl⟩

end

/-! ## What is reported -/

/-- When no records are shown and standard output takes all lines, the command line ends with 0 and
    no complaint if the program has results, and with 1 and a tagged complaint if it stops at a
    fault, unless that is the limit on digits, which is not reported: then the run ends as it is. A
    line that standard output refuses ends the run as well, behind the lines before it. -/
theorem run_reports_all_but_digits_and_refusals [Host] {argv : List Text} {around : Surroundings}
    {o : Options} {text : Text} {shown : Nat} (hrequest : request argv = .ok (.options o))
    (hsource : source o around = .ok text) (hlimit : around.vars "AAQZ_RECURSION_LIMIT" = none)
    (hlevel : level o around.vars = .ok shown) (hquiet : Settings.debugLevel < shown) :
    let lines := (showText Settings.defaultDepth text : Run Unit).lines
    let report := run argv around
    (∀ line ∈ lines, around.refusal? line = none) ∧
      ((∃ results, (runText Settings.defaultDepth text).outcome = .ok results ∧
          report.ending = .ok 0 ∧ report.stderr = "") ∨
        (∃ fault, (runText Settings.defaultDepth text).outcome = .error fault ∧
          fault.kind ≠ .digits ∧ report.ending = .ok 1 ∧
          report.stderr = "AAQZ " ++ fault.words.escaped ++ "\n") ∨
        (∃ fault, (runText Settings.defaultDepth text).outcome = .error fault ∧
          fault.kind = .digits ∧ report.ending = .error (.machinery fault) ∧
          report.stderr = "")) ∨
    ∃ before line rest words, lines = before ++ line :: rest ∧
      (∀ taken ∈ before, around.refusal? taken = none) ∧ around.refusal? line = some words ∧
      report.ending = .error (.machinery (.unencodable words)) ∧ report.stderr = "" ∧
      report.stdout = Text.asLines before := by
  intro lines report
  have hreport : report = reported around.refusal? (showText Settings.defaultDepth text) :=
    run_eq_reported hrequest hsource (depth_of_unset hlimit) hlevel hquiet
  rw [hreport]
  have hshow := outcome_showText Settings.defaultDepth text
  rcases Run.admitted_cases around.refusal? (showText Settings.defaultDepth text) with
    ⟨htaken, hadmitted⟩ | ⟨before, line, rest, words, hsplit, hbefore, hline, hprinted, hfault⟩
  · -- All lines are taken, so the report is of the whole run.
    refine .inl ⟨htaken, ?_⟩
    rw [← hadmitted] at hshow
    cases hrun : (runText Settings.defaultDepth text).outcome with
    | ok results =>
      rw [hrun] at hshow
      rw [reported_of_ok hshow]
      exact .inl ⟨results, rfl, rfl, rfl⟩
    | error fault =>
      rw [hrun] at hshow
      have hfault := (keeps_runText Settings.defaultDepth text).2.allowed_of_eq_error hrun
      by_cases hdigits : fault.kind = .digits
      · have hreported := mt (Fault.isReported_iff_of_ofText hfault).mp (not_not.mpr hdigits)
        rw [reported_of_not_isReported hshow (Bool.not_eq_true _ ▸ hreported)]
        exact .inr (.inr ⟨fault, rfl, hdigits, rfl, rfl⟩)
      · have hreported := (Fault.isReported_iff_of_ofText hfault).mpr hdigits
        rw [reported_of_isReported hshow hreported, Fault.message_of_isReported hreported,
          Text.escaped_append]
        exact .inr (.inl ⟨fault, rfl, hdigits, rfl, rfl⟩)
  · -- The refusal is a fault that is not reported.
    rw [reported_of_not_isReported hfault rfl, hprinted]
    exact .inr ⟨before, line, rest, words, hsplit, hbefore, hline, rfl, rfl, rfl⟩

/-- Surroundings in which no variable is set, no file is there and standard output is in UTF-8. -/
def Surroundings.bare (input : List UInt8) : Surroundings :=
  ⟨fun _ => none, input, fun _ => .error .missing, Sink.utf8Refusal?⟩

/-- A division by zero in a program on standard input, and a surrogate that is printed by a program
    on the command line. -/
theorem run_reports_all_but_digits_and_refusals_division :
    letI := Host.bare
    let division := run [] (.bare [40, 47, 32, 49, 32, 48, 41])
    let printing := run ["-e", "(println \"\\ud800\")"] (.bare [])
    source ⟨none, none, none⟩ (.bare [40, 47, 32, 49, 32, 48, 41]) = .ok "(/ 1 0)" ∧
      division.ending = .ok 1 ∧ division.stderr = "AAQZ division by zero\n" ∧
      (∃ words, printing.ending = .error (.machinery (.unencodable words))) ∧
      printing.stderr = "" := by
  let _ := Host.bare
  intro division printing
  have hsource : source ⟨none, none, none⟩ (.bare [40, 47, 32, 49, 32, 48, 41]) =
      .ok "(/ 1 0)" := by
    -- The decoder recurses on the number of bytes and has to be unfolded to be evaluated.
    with_unfolding_all rfl
  have hquiet : Settings.debugLevel < Settings.defaultLevel := by decide
  have hdivision : division.ending = .ok 1 ∧ division.stderr = "AAQZ division by zero\n" := by
    have hlex : lex "(/ 1 0)" =
        ⟨[⟨.opener, "("⟩, ⟨.word, "/"⟩, ⟨.word, "1"⟩, ⟨.word, "0"⟩, ⟨.closer, ")"⟩], none⟩ := by
      decide +kernel
    have hread : read Settings.defaultDepth "(/ 1 0)" =
        .ok [.list [.sym ⟨"/"⟩, .int 1, .int 0]] := by
      rw [read_eq, hlex]
      cbv
    have hrun : (runText Settings.defaultDepth "(/ 1 0)").outcome = .error .zeroDivision := by
      rw [runText_eq, hread]
      rfl
    have hlines : (showText Settings.defaultDepth "(/ 1 0)" : Run Unit).lines = [] := by
      rw [showText_eq, hread]
      rfl
    have hrequest : request [] = .ok (.options ⟨none, none, none⟩) := rfl
    have hreport := run_reports_all_but_digits_and_refusals hrequest hsource rfl rfl hquiet
    rw [hrun, hlines] at hreport
    obtain ⟨-, hcases⟩ | ⟨_, _, _, _, hnil, -⟩ := hreport
    · obtain ⟨_, ⟨⟩, -⟩ | ⟨_, ⟨⟩, -, hending, hstderr⟩ | ⟨_, ⟨⟩, ⟨⟩, -⟩ := hcases
      exact ⟨hending, hstderr⟩
    · simp at hnil
  have hprinting : (∃ words, printing.ending = .error (.machinery (.unencodable words))) ∧
      printing.stderr = "" := by
    have hlex : lex "(println \"\\ud800\")" =
        ⟨[⟨.opener, "("⟩, ⟨.word, "println"⟩, ⟨.string, "\"\\ud800\""⟩, ⟨.closer, ")"⟩], none⟩ := by
      decide +kernel
    have hread : read Settings.defaultDepth "(println \"\\ud800\")" =
        .ok [.list [.sym ⟨"println"⟩, .str ⟨[.surrogate 0]⟩]] := by
      rw [read_eq, hlex]
      cbv
    have hlines : ⟨[.surrogate 0]⟩ ∈
        (showText Settings.defaultDepth "(println \"\\ud800\")" : Run Unit).lines := by
      rw [showText_eq, hread]
      exact List.mem_cons_self
    have hrequest := @request_expr "(println \"\\ud800\")" (by decide)
    have hgiven : source ⟨none, some (.value "(println \"\\ud800\")"), none⟩ (.bare []) =
        .ok "(println \"\\ud800\")" := rfl
    have hreport := run_reports_all_but_digits_and_refusals hrequest hgiven rfl rfl hquiet
    obtain ⟨htaken, -⟩ | ⟨_, _, _, words, -, -, -, hending, hstderr, -⟩ := hreport
    · exact absurd (htaken _ hlines) (by decide)
    · exact ⟨⟨words, hending⟩, hstderr⟩
  exact ⟨hsource, hdivision.1, hdivision.2, hprinting⟩

/-- A numeral of one digit too many, given as the program, ends the run without a report. -/
theorem long_numeral_is_not_reported :
    letI := Host.bare
    let numeral : Text := ⟨List.replicate 4301 '9'⟩
    request ["-e", numeral] = .ok (.options ⟨none, some (.value numeral), none⟩) ∧
      (run ["-e", numeral] (.bare [])).ending = .error (.machinery (.longNumeral 4301)) ∧
      (run ["-e", numeral] (.bare [])).stderr = "" := by
  let _ := Host.bare
  intro numeral
  have hnines : ∀ c ∈ numeral.toList, c = '9' := fun c hc => List.eq_of_mem_replicate hc
  have hdigits : ∀ c ∈ numeral.toList, Text.isDigit c = true := by
    intro c hc
    rw [hnines c hc]
    decide
  have hword : ∀ c ∈ numeral.toList, Lexer.isWordChar c = true := by
    intro c hc
    rw [hnines c hc]
    decide
  have hlength : numeral.toList.length = 4301 := List.length_replicate
  have hlong : Text.maxDigits < numeral.toList.length := by
    rw [hlength]
    decide
  have hquiet : Settings.debugLevel < Settings.level (Surroundings.bare []).vars := by decide
  have hrun := run_of_long_numeral hdigits hword hlong rfl hquiet
  rw [hlength] at hrun
  refine ⟨request_expr ?_, hrun⟩
  rw [List.head?_replicate]
  decide

end CommandLine

end MiniLisp
