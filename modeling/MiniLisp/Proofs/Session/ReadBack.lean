/-
  MiniLisp.Proofs.Session.ReadBack

  Displayed results, taken as programs. A number, a text and a truth value each
  have a datum that evaluates to them at the top level (`Value.written?`,
  `interpret_of_written?`). The display of such a value is a token of that
  datum's written form (`exists_writes_of_plain`), if the number is not too
  long and no character of the text would have to be escaped: a display shows
  texts as they are. So the display is read back as the datum, and running it
  displays the value again, unless the text holds a surrogate: escapes can spell
  one, but where it stands by itself the reader refuses it.
-/
import MiniLisp.Proofs.Machine.Console
import MiniLisp.Proofs.Reader.RoundTrip

namespace MiniLisp

/-! ## Values and the data that stand for them -/

/-- The datum that has the value at the top level. -/
def Value.written? : Value → Option Datum
  | .num n => some (.int n)
  | .str s => some (.str s)
  | .bool b => some (.sym ⟨if b then "true" else "false"⟩)
  | .prim _ | .closure _ _ _ | .failure | .foreign _ => none

theorem height_of_written? {v : Value} {d : Datum} (h : v.written? = some d) : d.height = 1 := by
  cases v with
  | num _ | str _ | bool _ => cases h; rfl
  | prim _ | closure _ _ _ | failure | foreign _ => cases h

/-- Evaluating the datum that stands for a value has no effect but the value. -/
theorem interpret_of_written? {v : Value} {d : Datum} (h : v.written? = some d) (depth : Nat) :
    interpret (depth + 1) d = pure v := by
  cases v with
  | num n => cases h; rfl
  | str s => cases h; rfl
  | bool b =>
    cases h
    cases b with
    | true => rfl
    | false => rfl
  | prim _ | closure _ _ _ | failure | foreign _ => cases h

/-! ## Displays that are written forms -/

/-- Values whose displays are written forms: numbers of at most `maxDigits` digits, truth values,
    and texts without double quotes, backslashes and U+0000. -/
inductive Value.Plain : Value → Prop
  | num {n : Int} (h : (Nat.toDigits 10 n.natAbs).length ≤ Text.maxDigits) : Plain (.num n)
  | bool (b : Bool) : Plain (.bool b)
  | str {s : Text} (h : ∀ c ∈ s.toList, c ≠ '\x22' ∧ c ≠ '\\' ∧ c ≠ '\x00') : Plain (.str s)

/-- No text with a surrogate in it. -/
def Value.isEncodable : Value → Bool
  | .str s => s.isEncodable
  | .num _ | .bool _ | .prim _ | .closure _ _ _ | .failure | .foreign _ => true

/-- A text that needs no escapes is written as it is. -/
theorem stringLiteral_of_forall {s : Text}
    (h : ∀ c ∈ s.toList, c ≠ '\x22' ∧ c ≠ '\\' ∧ c ≠ '\x00') :
    stringLiteral s = "\x22" ++ s ++ "\x22" := by
  have hspell : ∀ c ∈ s.toList, spellInString c = [c] := by
    intro c hc
    obtain ⟨hquote, hbackslash, hnul⟩ := h c hc
    rw [spellInString, if_neg (not_or.mpr ⟨hbackslash, hquote⟩), if_neg hnul]
  have hchars : s.toList.flatMap spellInString = s.toList := by
    rw [List.flatMap_congr hspell, List.flatMap_singleton']
  rw [stringLiteral, hchars]
  refine Text.ext ?_
  simp

/-- The names of the truth values are words, and no numerals. -/
theorem printable_truth_name (b : Bool) :
    (Datum.sym ⟨if b then "true" else "false"⟩).Printable := by
  -- The characters are checked by `all`, which can be computed.
  cases b with
  | true =>
    exact .sym (by decide)
      (List.all_eq_true.mp (by decide : (Text.ofString "true").toList.all _ = true))
      (Text.Numeral.ofChars?_eq_none_iff.mp (by decide))
  | false =>
    exact .sym (by decide)
      (List.all_eq_true.mp (by decide : (Text.ofString "false").toList.all _ = true))
      (Text.Numeral.ofChars?_eq_none_iff.mp (by decide))

/-- The display of such a value, if it holds no surrogate, is a written form of the datum that
    stands for the value. -/
theorem exists_writes_of_plain {v : Value} (h : v.Plain) (hv : v.isEncodable = true) :
    ∃ t d, v.display = .ok t.text ∧ v.written? = some d ∧ Writes [t] d ∧ d.Printable := by
  cases h with
  | @num n h =>
    have hfits := Text.Numeral.decimalFits_iff.mpr h
    refine ⟨⟨.word, Text.decimal n⟩, .int n, ?_, rfl, .int n, .int hfits⟩
    rw [Value.display, decimalText, if_pos hfits]
  | bool b =>
    exact ⟨⟨.word, if b then "true" else "false"⟩, _, rfl, rfl, .sym _, printable_truth_name b⟩
  | @str s h =>
    refine ⟨⟨.string, stringLiteral s⟩, .str s, ?_, rfl, .str s, .str hv⟩
    rw [Value.display, stringLiteral_of_forall h]

section

variable [Host]

/-- One token is read as the datum that it is a written form of. -/
theorem read_of_writes {t : Token} {d : Datum} (h : Writes [t] d) (hd : d.Printable)
    (depth : Nat) : read depth t.text = within d.height depth [d] :=
  read_of_lexeme (isLexeme_of_writes h hd.readable t List.mem_cons_self) (spells_of_writes h hd)
    depth

/-- The display of a text with a surrogate is one literal, which is not read. -/
theorem read_display_of_surrogate {v : Value} (h : v.Plain) (hv : v.isEncodable = false) :
    ∃ text cause, v.display = .ok text ∧
      ∀ depth, read (depth + 1) text = .error (.badLiteral text cause) := by
  cases h with
  | num _ | bool _ => cases hv
  | @str s h =>
    obtain ⟨cause, hcause⟩ := ofLiteral_stringLiteral_of_surrogate hv
    refine ⟨stringLiteral s, cause, ?_, fun depth => ?_⟩
    · rw [Value.display, stringLiteral_of_forall h]
    · refine read_of_refused_lexeme (isLexeme_stringLiteral s) ?_
      rw [TokenStream.readDatum_string, hcause]

/-! ## Running displays -/

/-- A text that is read as one datum has the value of that datum for its result. -/
theorem runText_of_read {depth : Nat} {source text : Text} {d : Datum} {v : Value}
    (hread : read depth source = .ok [d]) (hvalue : interpret depth d = pure v)
    (hdisplay : v.display = .ok text) :
    runText depth source = ⟨[.finished text], .ok [text]⟩ := by
  have hreport : report depth d = pure text := by
    rw [report_eq, hvalue, pure_bind, hdisplay]
    rfl
  rw [runText_eq, hread]
  show runForms depth [d] = _
  rw [runForms_eq, List.mapM_cons, List.mapM_nil, hreport]
  rfl

end

/-- What is displayed reads back, where it can be encoded. The display of such a value is a text
    that is read as one datum; in every session of the top level that datum has the value, and the
    text, run as a program, displays the value as it was displayed. Neither prints anything, and
    running leaves its result in the log. The display of a text with a surrogate is a literal that
    the reader refuses, and running it leaves the session as it is. -/
theorem display_reads_back [Host] (depth : Nat) {s : Session} (hs : s.env = topEnv) {v : Value}
    (h : v.Plain) :
    ∃ text, v.display = .ok text ∧
      (v.isEncodable = true →
        ∃ d, read (depth + 1) text = .ok [d] ∧
          s.step (depth + 1) (.interpret d) = (.ok (.value v), s) ∧
          s.step (depth + 1) (.runText text) = (.ok (.results [text]),
            { s with console.log := s.console.log ++ [Record.result text] })) ∧
      (v.isEncodable = false →
        ∃ cause, read (depth + 1) text = .error (.badLiteral text cause) ∧
          s.step (depth + 1) (.runText text) = (.error (.badLiteral text cause), s)) := by
  cases hv : v.isEncodable with
  | false =>
    obtain ⟨text, cause, hdisplay, hread⟩ := read_display_of_surrogate h hv
    exact ⟨text, hdisplay, fun htrue => absurd htrue (by decide),
      fun _ => ⟨cause, hread depth, s.step_runText_error _ (hread depth)⟩⟩
  | true =>
    obtain ⟨t, d, hdisplay, hd, hwrites, hprintable⟩ := exists_writes_of_plain h hv
    have hread : read (depth + 1) t.text = .ok [d] := by
      rw [read_of_writes hwrites hprintable, height_of_written? hd]
      exact if_pos (Nat.le_add_left 1 depth)
    have hvalue := interpret_of_written? hd depth
    refine ⟨t.text, hdisplay, fun _ => ⟨d, hread, ?_, ?_⟩,
      fun hfalse => absurd hfalse (by decide)⟩
    · rw [s.step_interpret _ hs, hvalue, Run.admitted_pure]
      show (_, { s with console := s.console.after [] }) = _
      rw [s.console.after_nil]
      rfl
    · rw [s.step_runText _ hs, runText_of_read hread hvalue hdisplay,
        Run.admitted_eq_self fun _ h => absurd h List.not_mem_nil]
      show (_, { s with console := s.console.after [.finished t.text] }) = _
      rw [s.console.after_of_line?_eq_none rfl]
      rfl

/-- A negative number, and a text with a closing bracket, a line break, an em space and what would
    be a comment in it, in a session in which something was printed; then half of a surrogate
    pair. -/
theorem display_reads_back_lines :
    letI := Host.bare
    let s := Session.start (.buffer ["z"])
    let odd : Text := "a)\n\u2003;b"
    (∃ text d, (Value.num (-120)).display = .ok text ∧ read 1 text = .ok [d] ∧
      s.step 1 (.interpret d) = (.ok (.value (.num (-120))), s)) ∧
    (∃ text d, (Value.str odd).display = .ok text ∧ read 1 text = .ok [d] ∧
      s.step 1 (.interpret d) = (.ok (.value (.str odd)), s) ∧
      s.step 1 (.runText text) =
        (.ok (.results [text]), { s with console.log := [Record.result text] })) ∧
    ∃ text cause, (Value.str ⟨[.surrogate 0]⟩).display = .ok text ∧
      read 1 text = .error (.badLiteral text cause) := by
  let _ := Host.bare
  intro s odd
  have hodd : odd.toList.all (fun c => c ≠ '\x22' ∧ c ≠ '\\' ∧ c ≠ '\x00') = true := by decide
  obtain ⟨number, hnumber, hback, -⟩ :=
    display_reads_back 0 (s := s) rfl (.num (n := -120) (by decide))
  obtain ⟨text, htext, hrun, -⟩ := display_reads_back 0 (s := s) rfl
    (.str (s := odd) fun c hc => of_decide_eq_true (List.all_eq_true.mp hodd c hc))
  obtain ⟨half, hhalf, -, hrefused⟩ :=
    display_reads_back 0 (s := s) rfl (.str (s := ⟨[.surrogate 0]⟩) (by decide))
  obtain ⟨d, hd, hvalue, -⟩ := hback rfl
  obtain ⟨d', hd', hvalue', hresult⟩ := hrun (by decide)
  obtain ⟨cause, hfault, -⟩ := hrefused rfl
  exact ⟨⟨number, d, hnumber, hd, hvalue⟩, ⟨text, d', htext, hd', hvalue', hresult⟩,
    half, cause, hhalf, hfault⟩

/-- Half of a surrogate pair is the value of a program, and holds nothing that would have to be
    escaped; but the reader refuses its display. -/
theorem displayed_surrogate_is_not_read_back :
    letI := Host.bare
    let half : Text := ⟨[.surrogate 0]⟩
    let shown : Text := ⟨[.char '\x22', .surrogate 0, .char '\x22']⟩
    (∃ d, read 1 "\x22\\ud800\x22" = .ok [d] ∧ interpret 1 d = pure (.str half)) ∧
      (Value.str half).Plain ∧ (Value.str half).display = .ok shown ∧
      read 1 shown = .error (.badLiteral shown (.holdsSurrogates ⟨1, .surrogate 0, 1⟩)) ∧
      ((Session.start (.buffer [])).step 1 (.runText shown)).1 =
        .error (.badLiteral shown (.holdsSurrogates ⟨1, .surrogate 0, 1⟩)) := by
  let _ := Host.bare
  intro half shown
  have hescaped : read 1 "\x22\\ud800\x22" = .ok [.str half] := by
    have hlex : lex "\x22\\ud800\x22" = ⟨[⟨.string, "\x22\\ud800\x22"⟩], none⟩ := by
      decide +kernel
    rw [read_eq, hlex]
    cbv
  have hraw :
      read 1 shown = .error (.badLiteral shown (.holdsSurrogates ⟨1, .surrogate 0, 1⟩)) := by
    have hlex : lex shown = ⟨[⟨.string, shown⟩], none⟩ := by decide +kernel
    rw [read_eq, hlex]
    rfl
  refine ⟨⟨.str half, hescaped, rfl⟩, .str (by decide), rfl, hraw, ?_⟩
  have hrun :
      runText 1 shown = .fail (.badLiteral shown (.holdsSurrogates ⟨1, .surrogate 0, 1⟩)) := by
    rw [runText_eq, hraw]
    rfl
  rw [Session.step_runText 1 rfl, hrun]
  rfl

end MiniLisp
