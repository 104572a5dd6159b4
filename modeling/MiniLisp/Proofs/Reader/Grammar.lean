/-
  MiniLisp.Proofs.Reader.Grammar

  The grammar of surface data over tokens, and the reader against it.

  `Spells ts d` says which tokens spell a datum, without a bound on nesting, and
  `Datum.height` counts how deep a datum nests. From the steps of the reader
  follow, by one induction each:

  * tokens that spell a datum are read as that datum if it nests no deeper than
    allowed, and stop the reader by their depth alone if it does
    (`readDatum_of_spells`);
  * what is read was spelled by the tokens consumed, and a fault comes from the
    tokens, the end of the text or the depth (`readsFrom_readDatum`).

  `read_of_spells`, `exists_spells_of_read` and `readFault_of_read` say the same
  of whole texts. The string tokens of a text are plain (`Token.IsPlain`); one that
  is put together by hand may hold anything else, and then it is for the host to say
  what it stands for.
-/
import MiniLisp.Proofs.Outcome
import MiniLisp.Proofs.Reader.Steps
import MiniLisp.Proofs.Token.Layout

namespace MiniLisp

/-! ## How deep a datum nests -/

namespace Datum

mutual

/-- How deep the datum nests: one for itself, and one for each list around its deepest part. -/
def height : Datum → Nat
  | .list items => heightAll items + 1
  | _ => 1

/-- How deep the deepest of several data nests. -/
def heightAll : List Datum → Nat
  | [] => 0
  | d :: ds => max (height d) (heightAll ds)

end

theorem heightAll_le_iff {ds : List Datum} {n : Nat} :
    heightAll ds ≤ n ↔ ∀ d ∈ ds, d.height ≤ n := by
  induction ds with
  | nil => simp [heightAll]
  | cons d ds ih => rw [heightAll, Nat.max_le, ih, List.forall_mem_cons]

end Datum

/-! ## Tokens that spell data -/

/-- A string token holds a string as strings are cut from texts. -/
def Token.IsPlain (t : Token) : Prop :=
  t.kind = .string → Lexer.isString t.text.toList = true

theorem Token.IsLexeme.isPlain {t : Token} (h : t.IsLexeme) : t.IsPlain := by
  intro hkind
  cases h with
  | string h => exact Lexer.isString_of_enclosed h
  | opener _ | closer _ | word _ _ => cases hkind

theorem Bracket.eq_of_ofOpener? {text : Text} {b : Bracket} (h : ofOpener? text = some b) :
    text = .singleton b.opener := by
  have := List.find?_some h
  simpa using this

theorem Bracket.closedBy_iff {b : Bracket} {text : Text} :
    b.closedBy text = true ↔ text = .singleton b.closer :=
  decide_eq_true_iff

theorem TokenStream.eq_longNumeral_of_ofWord {text : Text} {fault : Fault}
    (h : Datum.ofWord text = .error fault) : ∃ digits, fault = .longNumeral digits := by
  unfold Datum.ofWord at h
  split at h
  · cases h
  · split at h
    · cases h
      exact ⟨_, rfl⟩
    · cases h

theorem TokenStream.height_of_ofWord {text : Text} {d : Datum} (h : Datum.ofWord text = .ok d) :
    d.height = 1 := by
  unfold Datum.ofWord at h
  split at h
  · cases h
    rfl
  · split at h
    · cases h
    · cases h
      rfl

variable [Host]

/-- The tokens are the spelling of the datum. -/
inductive Spells : List Token → Datum → Prop
  | word {text : Text} {d : Datum} (h : Datum.ofWord text = .ok d) :
      Spells [⟨.word, text⟩] d
  | string {text : Text} {d : Datum} (hplain : Lexer.isString text.toList = true)
      (h : Datum.ofLiteral text = .ok d) : Spells [⟨.string, text⟩] d
  /-- The items of a list, each with its tokens, between brackets of one shape. -/
  | list (b : Bracket) {parts : List (List Token × Datum)} (h : ∀ p ∈ parts, Spells p.1 p.2) :
      Spells (b.openToken :: (parts.flatMap Prod.fst ++ [b.closeToken]))
        (.list (parts.map Prod.snd))

/-- What spells a datum starts with a token that is no closer. -/
theorem Spells.exists_cons {ts : List Token} {d : Datum} (h : Spells ts d) :
    ∃ t ts', ts = t :: ts' ∧ t.kind ≠ .closer := by
  cases h with
  | word _ => exact ⟨_, _, rfl, by simp⟩
  | string _ _ => exact ⟨_, _, rfl, by simp⟩
  | list b _ => exact ⟨_, _, rfl, by simp [Bracket.openToken]⟩

namespace TokenStream

variable {most depth : Nat} {ts : List Token} {u : Option LexFault} {item : Reading (Option Datum)}

/-! ## What spells a datum is read as that datum -/

/-- The result `a`, with the stream `s` left, of reading that takes `need` nested activations. -/
def reached {α : Type} (need depth : Nat) (a : α) (s : TokenStream) :
    EStateM.Result Fault TokenStream α :=
  if need ≤ depth then .ok a s else .error .tooDeep finished

/-- Data that stand one after the other are gathered one after the other. -/
theorem Gathers.of_parts {loop : Nat → List Datum → Reading (List Datum)}
    (hloop : Gathers item loop) {parts : List (List Token × Datum)}
    (hspells : ∀ p ∈ parts, Spells p.1 p.2)
    (hread : ∀ p ∈ parts, ∀ rest,
      item (cut (p.1 ++ rest) u) = reached p.2.height depth (some p.2) (cut rest u))
    (more : Nat) (done : List Datum) (rest : List Token) :
    loop (more + parts.length) done (cut (parts.flatMap Prod.fst ++ rest) u) =
      if Datum.heightAll (parts.map Prod.snd) ≤ depth then
        loop more ((parts.map Prod.snd).reverse ++ done) (cut rest u)
      else .error .tooDeep finished := by
  -- On the parts: each is read off the front of what is left, and joins `done`.
  induction parts generalizing done with
  | nil => exact (if_pos (Nat.zero_le depth)).symm
  | cons p parts ih =>
    obtain ⟨hp, hparts⟩ := List.forall_mem_cons.mp hspells
    obtain ⟨hreadp, hreads⟩ := List.forall_mem_cons.mp hread
    obtain ⟨t, ts', hts, ht⟩ := hp.exists_cons
    have hnext := hreadp (parts.flatMap Prod.fst ++ rest)
    rw [List.flatMap_cons, List.append_assoc, List.length_cons, ← Nat.add_assoc, List.map_cons,
      Datum.heightAll, List.reverse_cons, List.append_assoc]
    rw [hts, List.cons_append] at hnext ⊢
    by_cases hheight : p.2.height ≤ depth
    · rw [reached, if_pos hheight] at hnext
      rw [hloop.joins ht hnext, ih hparts hreads]
      simp only [Nat.max_le, hheight, true_and]
      rfl
    · rw [reached, if_neg hheight] at hnext
      rw [hloop.fails ht hnext, if_neg fun h => hheight (Nat.le_trans (Nat.le_max_left _ _) h)]

/-- Data take at least a token each, and no datum takes more than all of them. -/
theorem length_parts_le {parts : List (List Token × Datum)}
    (hspells : ∀ p ∈ parts, Spells p.1 p.2) :
    parts.length ≤ (parts.flatMap Prod.fst).length ∧
      ∀ p ∈ parts, p.1.length ≤ (parts.flatMap Prod.fst).length := by
  induction parts with
  | nil => exact ⟨Nat.le_refl 0, fun p hp => absurd hp List.not_mem_nil⟩
  | cons q parts ih =>
    obtain ⟨hq, hparts⟩ := List.forall_mem_cons.mp hspells
    obtain ⟨hcount, hmax⟩ := ih hparts
    obtain ⟨t, ts', hts, -⟩ := hq.exists_cons
    have hpos : 0 < q.1.length := by
      rw [hts]
      exact Nat.zero_lt_succ _
    rw [List.flatMap_cons, List.length_append, List.length_cons]
    refine ⟨by omega, List.forall_mem_cons.mpr ⟨by omega, ?_⟩⟩
    intro p hp
    have := hmax p hp
    omega

/-- What a plain string token stands for is a text, if it stands for anything. -/
theorem ofLiteral_of_isString {text : Text} (hplain : Lexer.isString text.toList = true) :
    Datum.ofLiteral text =
      match Text.Literal.decode Host.named? text.toList with
      | .ok chars => .ok (.str (Text.ofList chars))
      | .error cause => .error (.badLiteral text cause) :=
  if_pos hplain

theorem eq_badLiteral_of_ofLiteral {text : Text} {fault : Fault}
    (hplain : Lexer.isString text.toList = true) (h : Datum.ofLiteral text = .error fault) :
    ∃ cause, fault = .badLiteral text cause := by
  rw [ofLiteral_of_isString hplain] at h
  split at h
  · cases h
  · cases h
    exact ⟨_, rfl⟩

theorem height_of_ofLiteral {text : Text} {d : Datum}
    (hplain : Lexer.isString text.toList = true) (h : Datum.ofLiteral text = .ok d) :
    d.height = 1 := by
  rw [ofLiteral_of_isString hplain] at h
  split at h
  · cases h
    rfl
  · cases h

/-- Tokens that spell a datum are read as that datum, and the bound on nesting is all that can
    stop the reader. -/
theorem readDatum_of_spells {d : Datum} (h : Spells ts d) (hmost : ts.length < most)
    (depth : Nat) (rest : List Token) (u : Option LexFault) :
    readDatum most depth (cut (ts ++ rest) u) = reached d.height depth (some d) (cut rest u) := by
  -- On the spelling. The items of a list are read with one activation less and with the tokens
  -- of the items after them behind them, so the depth and the rest vary.
  induction h generalizing depth rest with
  | word h =>
    cases depth with
    | zero => rw [readDatum_zero, height_of_ofWord h]; rfl
    | succ depth =>
      rw [height_of_ofWord h, List.singleton_append, readDatum_word, h, reached,
        if_pos (Nat.succ_le_succ (Nat.zero_le depth))]
  | string hplain h =>
    cases depth with
    | zero => rw [readDatum_zero, height_of_ofLiteral hplain h]; rfl
    | succ depth =>
      rw [height_of_ofLiteral hplain h, List.singleton_append, readDatum_string, h, reached,
        if_pos (Nat.succ_le_succ (Nat.zero_le depth))]
  | @list b parts hspells ih =>
    cases depth with
    | zero => rw [readDatum_zero, Datum.height]; rfl
    | succ depth =>
      obtain ⟨hcount, hmax⟩ := length_parts_le hspells
      rw [List.length_cons, List.length_append, List.length_singleton] at hmost
      -- One round of the loop for each item, and one for the closer.
      obtain ⟨more, hmore⟩ : ∃ more, most = more + 1 + parts.length :=
        ⟨most - 1 - parts.length, by omega⟩
      have hitems := (gathers_readItems most depth b).of_parts hspells
        (fun p hp rest => ih p hp (by have := hmax p hp; omega) depth rest)
        (more + 1) [] (b.closeToken :: rest)
      rw [← hmore, Bracket.closeToken, readItems_closer,
        if_pos (Bracket.closedBy_iff.mpr rfl), List.append_nil, List.reverse_reverse] at hitems
      have hts : b.openToken :: (parts.flatMap Prod.fst ++ [b.closeToken]) ++ rest =
          ⟨.opener, .singleton b.opener⟩ :: (parts.flatMap Prod.fst ++ b.closeToken :: rest) := by
        rw [List.cons_append, List.append_assoc]
        rfl
      rw [hts, readDatum_opener, Bracket.ofOpener?_opener, Bracket.closeToken]
      dsimp only
      rw [hitems, Datum.height]
      by_cases hheight : Datum.heightAll (parts.map Prod.snd) ≤ depth
      · rw [if_pos hheight, reached, if_pos (Nat.succ_le_succ hheight)]
      · rw [if_neg hheight, reached, if_neg fun h => hheight (Nat.le_of_succ_le_succ h)]

/-- The data of a text, spelled one after the other, are read as those data. -/
theorem readDataWith_of_parts {parts : List (List Token × Datum)}
    (hspells : ∀ p ∈ parts, Spells p.1 p.2) (hmost : (parts.flatMap Prod.fst).length < most) :
    readDataWith (readDatum most depth) most [] (cut (parts.flatMap Prod.fst) none) =
      reached (Datum.heightAll (parts.map Prod.snd)) depth (parts.map Prod.snd) (cut [] none) := by
  obtain ⟨hcount, hmax⟩ := length_parts_le hspells
  obtain ⟨more, hmore⟩ : ∃ more, most = more + 1 + parts.length :=
    ⟨most - 1 - parts.length, by omega⟩
  have hdata := (gathers_readDataWith most depth).of_parts hspells
    (fun p hp rest =>
      readDatum_of_spells (hspells p hp) (Nat.lt_of_le_of_lt (hmax p hp) hmost) depth rest none)
    (more + 1) [] []
  rw [← hmore, readDataWith_nil, List.append_nil, List.append_nil, List.reverse_reverse] at hdata
  rw [hdata, reached]

/-! ## What is read was spelled -/

/-- The faults that tokens with nothing behind them, or with something that cannot be cut into
    tokens, can make the reader stop at. -/
inductive ReadFault (ts : List Token) (u : Option LexFault) : Fault → Prop
  | lexing {cause : LexFault} (h : u = some cause) : ReadFault ts u (.lexing cause)
  | unmatched (b : Bracket) : ReadFault ts u (.unmatched b)
  | mismatched (b : Bracket) {text : Text} (h : ⟨.closer, text⟩ ∈ ts) :
      ReadFault ts u (.mismatched b text)
  | strayCloser {text : Text} (h : ⟨.closer, text⟩ ∈ ts) : ReadFault ts u (.strayCloser text)
  | noBracket {text : Text} (h : ⟨.opener, text⟩ ∈ ts) (hnone : Bracket.ofOpener? text = none) :
      ReadFault ts u (.noBracket text)
  | unknownToken {kind text : Text} (h : ⟨.other kind, text⟩ ∈ ts) :
      ReadFault ts u (.unknownToken kind text)
  | word {text : Text} {fault : Fault} (h : ⟨.word, text⟩ ∈ ts)
      (hfault : Datum.ofWord text = .error fault) : ReadFault ts u fault
  | string {text : Text} {fault : Fault} (h : ⟨.string, text⟩ ∈ ts)
      (hfault : Datum.ofLiteral text = .error fault) : ReadFault ts u fault
  | tooDeep : ReadFault ts u .tooDeep

theorem ReadFault.mono {ts' : List Token} {fault : Fault} (h : ReadFault ts u fault)
    (hsub : ts ⊆ ts') : ReadFault ts' u fault := by
  cases h with
  | lexing h => exact .lexing h
  | unmatched b => exact .unmatched b
  | mismatched b h => exact .mismatched b (hsub h)
  | strayCloser h => exact .strayCloser (hsub h)
  | noBracket h hnone => exact .noBracket (hsub h) hnone
  | unknownToken h => exact .unknownToken (hsub h)
  | word h hfault => exact .word (hsub h) hfault
  | string h hfault => exact .string (hsub h) hfault
  | tooDeep => exact .tooDeep

/-- How reading one datum can end: with a datum that the tokens consumed spell, at the end of the
    input, or with a fault of the tokens. -/
def ReadsFrom (depth : Nat) (ts : List Token) (u : Option LexFault) :
    EStateM.Result Fault TokenStream (Option Datum) → Prop
  | .ok (some d) s => ∃ used rest, ts = used ++ rest ∧ s = cut rest u ∧ Spells used d ∧
      d.height ≤ depth
  | .ok none _ => ts = [] ∧ u = none
  | .error fault _ => ReadFault ts u fault

/-- Parts that spell data which nest no deeper than `depth`. -/
def SpelledWithin (depth : Nat) (parts : List (List Token × Datum)) : Prop :=
  ∀ p ∈ parts, Spells p.1 p.2 ∧ p.2.height ≤ depth

/-- A loop gathers spelled data until its bound is used up or no item can start, unless an item
    fails after spelled data. -/
theorem Gathers.parts {loop : Nat → List Datum → Reading (List Datum)}
    (hloop : Gathers item loop)
    (hitem : ∀ ts, (∀ t ∈ ts, t.IsPlain) → ReadsFrom depth ts u (item (cut ts u)))
    (most : Nat) (done : List Datum) (ts : List Token) (hplain : ∀ t ∈ ts, t.IsPlain) :
    (∃ parts more rest, ts = parts.flatMap Prod.fst ++ rest ∧ SpelledWithin depth parts ∧
      most = more + parts.length ∧ (more = 0 ∨ ∀ t ∈ rest.head?, t.kind = .closer) ∧
      loop most done (cut ts u) = loop more ((parts.map Prod.snd).reverse ++ done) (cut rest u)) ∨
    ∃ fault s, loop most done (cut ts u) = .error fault s ∧ ReadFault ts u fault ∧
      ∃ parts t rest, ts = parts.flatMap Prod.fst ++ t :: rest ∧ SpelledWithin depth parts ∧
        t.kind ≠ .closer ∧ item (cut (t :: rest) u) = .error fault s := by
  -- On the bound of the loop, of which every item read takes one.
  induction most generalizing done ts with
  | zero => exact .inl ⟨[], 0, ts, rfl, by simp [SpelledWithin], rfl, .inl rfl, rfl⟩
  | succ most ih =>
    by_cases hstop : ∀ t ∈ ts.head?, t.kind = .closer
    · exact .inl ⟨[], most + 1, ts, rfl, by simp [SpelledWithin], rfl, .inr hstop, rfl⟩
    · cases ts with
      | nil => simp at hstop
      | cons t ts =>
        have ht : t.kind ≠ .closer := by simpa using hstop
        have hread := hitem (t :: ts) hplain
        match hresult : item (cut (t :: ts) u) with
        | .error fault s =>
          rw [hresult] at hread
          exact .inr ⟨fault, s, hloop.fails ht hresult, hread, [], t, ts, rfl,
            by simp [SpelledWithin], ht, hresult⟩
        | .ok none s =>
          rw [hresult] at hread
          exact absurd hread.1 (List.cons_ne_nil t ts)
        | .ok (some d) s =>
          rw [hresult] at hread
          obtain ⟨used, rest, hts, rfl, hspells, hheight⟩ := hread
          rw [hts] at hplain
          have hjoins :
              loop (most + 1) done (cut (t :: ts) u) = loop most (d :: done) (cut rest u) :=
            hloop.joins ht hresult
          rw [hjoins, hts]
          obtain ⟨parts, more, rest', hrest, hparts, hmost, hstop', hrun⟩ |
              ⟨fault, s, hrun, hfault, parts, t', rest', hrest, hparts, ht', hfails⟩ :=
            ih (d :: done) rest (List.forall_mem_append.mp hplain).2
          · refine .inl ⟨(used, d) :: parts, more, rest', ?_, ?_, ?_, hstop', ?_⟩
            · rw [List.flatMap_cons, List.append_assoc, hrest]
            · exact List.forall_mem_cons.mpr ⟨⟨hspells, hheight⟩, hparts⟩
            · rw [List.length_cons, hmost, Nat.add_assoc]
            · rw [hrun, List.map_cons, List.reverse_cons, List.append_assoc, List.singleton_append]
          · refine .inr ⟨fault, s, hrun, hfault.mono (List.subset_append_right used rest),
              (used, d) :: parts, t', rest', ?_, ?_, ht', hfails⟩
            · rw [List.flatMap_cons, List.append_assoc, hrest]
            · exact List.forall_mem_cons.mpr ⟨⟨hspells, hheight⟩, hparts⟩

/-- How reading the items of a list can end: after items spelled by the tokens up to a closer of
    the list's own shape, or with a fault of the tokens. -/
def ReadsItems (depth : Nat) (b : Bracket) (ts : List Token) (u : Option LexFault) :
    EStateM.Result Fault TokenStream (List Datum) → Prop
  | .ok items s => ∃ parts rest, ts = parts.flatMap Prod.fst ++ b.closeToken :: rest ∧
      s = cut rest u ∧ SpelledWithin depth parts ∧ items = parts.map Prod.snd
  | .error fault _ => ReadFault ts u fault

theorem readsItems_readItems {most' : Nat} (b : Bracket) (most : Nat)
    (hitem : ∀ ts, (∀ t ∈ ts, t.IsPlain) →
      ReadsFrom depth ts u (readDatum most' depth (cut ts u)))
    (ts : List Token) (hplain : ∀ t ∈ ts, t.IsPlain) :
    ReadsItems depth b ts u (readItems (readDatum most' depth) b most [] (cut ts u)) := by
  obtain ⟨parts, more, rest, rfl, hparts, -, hstop, hrun⟩ | ⟨fault, s, hrun, hfault, -⟩ :=
    (gathers_readItems most' depth b).parts hitem most [] ts hplain
  · rw [hrun]
    cases more with
    | zero =>
      rw [readItems_zero]
      exact .unmatched b
    | succ more =>
      cases rest with
      | nil =>
        cases u with
        | none =>
          rw [readItems_nil]
          exact .unmatched b
        | some cause =>
          rw [readItems_stopped]
          exact .lexing rfl
      | cons t rest =>
        obtain ⟨kind, text⟩ := t
        obtain rfl : kind = .closer := by simpa using hstop
        rw [readItems_closer]
        split
        · rename_i hclosed
          rw [Bracket.closedBy_iff] at hclosed
          refine ⟨parts, rest, by rw [hclosed, Bracket.closeToken], rfl, hparts, ?_⟩
          rw [List.append_nil, List.reverse_reverse]
        · exact .mismatched b (List.mem_append_right _ List.mem_cons_self)
  · rw [hrun]
    exact hfault

/-- Reading one datum ends in one of the ways above, whatever the tokens are. -/
theorem readsFrom_readDatum (most depth : Nat) (u : Option LexFault) (ts : List Token)
    (hplain : ∀ t ∈ ts, t.IsPlain) :
    ReadsFrom depth ts u (readDatum most depth (cut ts u)) := by
  -- On the depth: the loop over the items of a list reads them with one activation less.
  induction depth generalizing ts with
  | zero =>
    rw [readDatum_zero]
    exact .tooDeep
  | succ depth ih =>
    cases ts with
    | nil =>
      cases u with
      | none =>
        rw [readDatum_nil]
        exact ⟨rfl, rfl⟩
      | some cause =>
        rw [readDatum_stopped]
        exact .lexing rfl
    | cons t ts =>
      obtain ⟨kind, text⟩ := t
      obtain ⟨ht, hts⟩ := List.forall_mem_cons.mp hplain
      have hmem (kind : TokenKind) : (⟨kind, text⟩ : Token) ∈ (⟨kind, text⟩ :: ts : List Token) :=
        List.mem_cons_self
      cases kind with
      | word =>
        rw [readDatum_word]
        cases hword : Datum.ofWord text with
        | error fault => exact .word (hmem _) hword
        | ok d =>
          exact ⟨[⟨.word, text⟩], ts, rfl, rfl, .word hword,
            Nat.le_trans (Nat.le_of_eq (height_of_ofWord hword)) (Nat.le_add_left 1 depth)⟩
      | string =>
        rw [readDatum_string]
        cases hliteral : Datum.ofLiteral text with
        | error fault => exact .string (hmem _) hliteral
        | ok d =>
          have hheight : d.height = 1 := height_of_ofLiteral (ht rfl) hliteral
          exact ⟨[⟨.string, text⟩], ts, rfl, rfl, .string (ht rfl) hliteral,
            Nat.le_trans (Nat.le_of_eq hheight) (Nat.le_add_left 1 depth)⟩
      | opener =>
        rw [readDatum_opener]
        cases hbracket : Bracket.ofOpener? text with
        | none => exact .noBracket (hmem _) hbracket
        | some b =>
          dsimp only
          have hitems := readsItems_readItems b most ih ts hts
          cases hresult : readItems (readDatum most depth) b most [] (cut ts u) with
          | error fault s =>
            rw [hresult] at hitems
            exact ReadFault.mono hitems (List.subset_cons_self _ ts)
          | ok items s =>
            rw [hresult] at hitems
            obtain ⟨parts, rest, rfl, rfl, hparts, rfl⟩ := hitems
            refine ⟨b.openToken :: (parts.flatMap Prod.fst ++ [b.closeToken]), rest, ?_, rfl,
              .list b fun p hp => (hparts p hp).1, ?_⟩
            · rw [Bracket.eq_of_ofOpener? hbracket, List.cons_append, List.append_assoc]
              rfl
            · rw [Datum.height, Nat.succ_le_succ_iff, Datum.heightAll_le_iff]
              exact List.forall_mem_map.mpr fun p hp => (hparts p hp).2
      | closer =>
        rw [readDatum_closer]
        exact .strayCloser (hmem _)
      | other kind =>
        rw [readDatum_other]
        exact .unknownToken (hmem _)

/-- How reading all data can end: with data that all the tokens spell, or with a fault of the
    tokens. -/
def ReadsAll (depth : Nat) (ts : List Token) (u : Option LexFault) :
    EStateM.Result Fault TokenStream (List Datum) → Prop
  | .ok ds _ => ∃ parts, ts = parts.flatMap Prod.fst ∧ u = none ∧ SpelledWithin depth parts ∧
      ds = parts.map Prod.snd
  | .error fault _ => ReadFault ts u fault

theorem readsAll_readDataWith (most' : Nat) (hmost : ts.length < most)
    (hplain : ∀ t ∈ ts, t.IsPlain) :
    ReadsAll depth ts u (readDataWith (readDatum most' depth) most [] (cut ts u)) := by
  obtain ⟨parts, more, rest, rfl, hparts, hcount, hstop, hrun⟩ | ⟨fault, s, hrun, hfault, -⟩ :=
    (gathers_readDataWith most' depth).parts (readsFrom_readDatum most' depth u) most [] ts hplain
  · rw [hrun]
    -- The bound is more than the number of tokens, so it is not what ends the loop.
    have hle := (length_parts_le fun p hp => (hparts p hp).1).1
    rw [List.length_append] at hmost
    cases more with
    | zero => omega
    | succ more =>
      cases rest with
      | nil =>
        cases u with
        | none =>
          rw [readDataWith_nil, List.append_nil, List.append_nil, List.reverse_reverse]
          exact ⟨parts, rfl, rfl, hparts, rfl⟩
        | some cause =>
          rw [readDataWith_stopped]
          exact .lexing rfl
      | cons t rest =>
        obtain ⟨kind, text⟩ := t
        obtain rfl : kind = .closer := by simpa using hstop
        rw [readDataWith_cons]
        -- At the top level a closer is read like any token, and closes nothing.
        cases depth with
        | zero =>
          rw [readDatum_zero]
          exact .tooDeep
        | succ depth =>
          rw [readDatum_closer]
          exact .strayCloser (List.mem_append_right _ List.mem_cons_self)
  · rw [hrun]
    exact hfault

end TokenStream

/-! ## Whole texts -/

open TokenStream

theorem read_eq (depth : Nat) (source : Text) :
    read depth source =
      result (readDataWith (readDatum ((lex source).tokens.length + 1) depth)
        ((lex source).tokens.length + 1) []) (cut (lex source).tokens (lex source).stopped) := by
  have hsize : (ofText source).size = (lex source).tokens.length := Nat.zero_add _
  rw [← hsize]
  rfl

/-- A text whose tokens spell data is read as those data, and the bound on nesting is all that
    can stop the reader. -/
theorem read_of_spells {source : Text} {parts : List (List Token × Datum)}
    (hlex : lex source = ⟨parts.flatMap Prod.fst, none⟩) (hspells : ∀ p ∈ parts, Spells p.1 p.2)
    (depth : Nat) :
    read depth source =
      within (Datum.heightAll (parts.map Prod.snd)) depth (parts.map Prod.snd) := by
  rw [read_eq, hlex, result, readDataWith_of_parts hspells (Nat.lt_succ_self _), reached, within]
  by_cases hheight : Datum.heightAll (parts.map Prod.snd) ≤ depth
  · rw [if_pos hheight, if_pos hheight]
  · rw [if_neg hheight, if_neg hheight]

/-- A text that is one lexeme is read as the datum that the lexeme spells. -/
theorem read_of_lexeme {t : Token} {d : Datum} (ht : t.IsLexeme) (hd : Spells [t] d)
    (depth : Nat) : read depth t.text = within d.height depth [d] := by
  have hlex : lex t.text = ⟨[([t], d)].flatMap Prod.fst, none⟩ := lex_of_isLexeme ht
  have hread := read_of_spells hlex (List.forall_mem_singleton.mpr hd) depth
  rwa [List.map_singleton, Datum.heightAll, Datum.heightAll, Nat.max_zero] at hread

/-- A text that is one lexeme at which the reader stops is not read. -/
theorem read_of_refused_lexeme {t : Token} {fault : Fault} {depth : Nat} (ht : t.IsLexeme)
    (h : readDatum 2 depth (cut [t] none) = .error fault (cut [] none)) :
    read depth t.text = .error fault := by
  rw [read_eq, lex_of_isLexeme ht, List.length_singleton, result, readDataWith_cons, h]

theorem readsAll_read (depth : Nat) (source : Text) :
    ReadsAll depth (lex source).tokens (lex source).stopped
      (readDataWith (readDatum ((lex source).tokens.length + 1) depth)
        ((lex source).tokens.length + 1) [] (cut (lex source).tokens (lex source).stopped)) :=
  readsAll_readDataWith _ (Nat.lt_succ_self _) fun _ ht => (isLexeme_of_mem_lex ht).isPlain

/-- What is read from a text is spelled by all its tokens. -/
theorem exists_spells_of_read {depth : Nat} {source : Text} {ds : List Datum}
    (h : read depth source = .ok ds) :
    ∃ parts, (lex source).tokens = parts.flatMap Prod.fst ∧ SpelledWithin depth parts ∧
      ds = parts.map Prod.snd := by
  have hall := readsAll_read depth source
  rw [read_eq, result] at h
  split at h
  · rename_i hresult
    rw [hresult] at hall
    obtain ⟨parts, hts, -, hparts, rfl⟩ := hall
    cases h
    exact ⟨parts, hts, hparts, rfl⟩
  · cases h

/-- A fault of reading a text is a fault of its tokens. -/
theorem readFault_of_read {depth : Nat} {source : Text} {fault : Fault}
    (h : read depth source = .error fault) :
    ReadFault (lex source).tokens (lex source).stopped fault := by
  have hall := readsAll_read depth source
  rw [read_eq, result] at h
  split at h
  · cases h
  · rename_i hresult
    rw [hresult] at hall
    cases h
    exact hall

end MiniLisp
