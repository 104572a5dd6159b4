/-
  MiniLisp.Proofs.Reader.SinglePass

  The reader as one pass over the tokens, from left to right, with a stack of the
  lists that are open. `Pass.take` says what the pass does with one token: an
  opener pushes a list, a closer pops the innermost one and must match it, and a
  leaf is decoded and added to the innermost list. `Pass.finish` says how the
  pass ends when the tokens are used up.

  `Pass.runWithin` is the same pass with a bound on how many lists may be open
  where a datum starts. Reading by recursive descent is this pass, for tokens of
  any kind and in any order (`result_readDataWith`): data that are spelled are
  taken by the pass as they are by the reader (`runWithin_of_parts`), and where
  the reader stops, the pass stops at the same fault (`runWithin_of_readDatum`).
  The bound can only stop the pass early (`ends_runWithin`). So of several faults
  in a text the first in the order of the tokens is reported.
-/
import MiniLisp.Proofs.Reader.Balance

namespace MiniLisp

open TokenStream

/-! ## A pass over tokens -/

/-- What a pass has in hand. Data are kept with the last one first. -/
structure Pass where
  /-- The lists that are open, innermost first, each with the data in it. -/
  opened : List (Bracket × List Datum)
  /-- The data at the top level. -/
  data : List Datum

namespace Pass

/-- Nothing is open and nothing is read. -/
def start : Pass := ⟨[], []⟩

/-- Adds a datum to the innermost list, or to the top level. -/
def add (s : Pass) (d : Datum) : Pass :=
  match s.opened with
  | [] => ⟨[], d :: s.data⟩
  | (b, items) :: outer => ⟨(b, d :: items) :: outer, s.data⟩

@[simp] theorem length_opened_add (s : Pass) (d : Datum) :
    (s.add d).opened.length = s.opened.length := by
  obtain ⟨opened, data⟩ := s
  cases opened with
  | nil => rfl
  | cons list outer => rfl

theorem foldl_add_opened (b : Bracket) (items : List Datum) (outer : List (Bracket × List Datum))
    (data ds : List Datum) :
    ds.foldl add ⟨(b, items) :: outer, data⟩ = ⟨(b, ds.reverse ++ items) :: outer, data⟩ := by
  induction ds generalizing items with
  | nil => rfl
  | cons d ds ih => rw [List.foldl_cons, List.reverse_cons, List.append_assoc]; exact ih _

theorem foldl_add_top (data ds : List Datum) :
    ds.foldl add ⟨[], data⟩ = ⟨[], ds.reverse ++ data⟩ := by
  induction ds generalizing data with
  | nil => rfl
  | cons d ds ih => rw [List.foldl_cons, List.reverse_cons, List.append_assoc]; exact ih _

theorem length_opened_foldl_add (ds : List Datum) (s : Pass) :
    (ds.foldl add s).opened.length = s.opened.length := by
  induction ds generalizing s with
  | nil => rfl
  | cons d ds ih => rw [List.foldl_cons, ih, length_opened_add]

variable [Host]

/-- Takes a token. -/
def take (s : Pass) (t : Token) : Except Fault Pass :=
  match t.kind with
  | .word => do pure (s.add (← Datum.ofWord t.text))
  | .string => do pure (s.add (← Datum.ofLiteral t.text))
  | .opener =>
    match Bracket.ofOpener? t.text with
    | some b => .ok ⟨(b, []) :: s.opened, s.data⟩
    | none => .error (.noBracket t.text)
  | .closer =>
    match s.opened with
    | [] => .error (.strayCloser t.text)
    | (b, items) :: outer =>
      if b.closedBy t.text then .ok (add ⟨outer, s.data⟩ (.list items.reverse))
      else .error (.mismatched b t.text)
  | .other kind => .error (.unknownToken kind t.text)

/-- Takes tokens one after the other, up to the first that cannot be taken. -/
def scan (s : Pass) (ts : List Token) : Except Fault Pass := ts.foldlM take s

/-- Ends the pass: a text that cannot be cut to its end counts before a list that is not
    closed. -/
def finish (s : Pass) (stopped : Option LexFault) : Except Fault (List Datum) :=
  match stopped, s.opened with
  | some cause, _ => .error (.lexing cause)
  | none, (b, _) :: _ => .error (.unmatched b)
  | none, [] => .ok s.data.reverse

/-- Takes all tokens and ends the pass. -/
def run (s : Pass) (ts : List Token) (stopped : Option LexFault) : Except Fault (List Datum) := do
  (← s.scan ts).finish stopped

/-- Takes a token, unless as many lists are open as `depth` allows and the token starts a datum; in
    a list, a closer starts none. -/
def takeWithin (depth : Nat) (s : Pass) (t : Token) : Except Fault Pass :=
  if s.opened.length < depth ∨ (t.kind = .closer ∧ s.opened ≠ []) then s.take t
  else .error .tooDeep

/-- Takes all tokens and ends the pass, with data that nest no deeper than `depth`. -/
def runWithin (depth : Nat) (s : Pass) (ts : List Token) (stopped : Option LexFault) :
    Except Fault (List Datum) := do
  (← ts.foldlM (takeWithin depth) s).finish stopped

end Pass

section

variable [Host]

/-- The surface data of a program text, in one pass over its tokens. -/
def readInOnePass (source : Text) : Except Fault (List Datum) :=
  Pass.start.run (lex source).tokens (lex source).stopped

namespace Pass

variable {s s' : Pass} {t : Token} {ts : List Token} {u : Option LexFault} {b : Bracket}
  {items : List Datum} {outer : List (Bracket × List Datum)} {data : List Datum}
  {depth left most : Nat} {fault : Fault}

/-! ## Steps of the pass -/

theorem run_cons : s.run (t :: ts) u = s.take t >>= fun s' => s'.run ts u := by
  unfold run scan
  rw [List.foldlM_cons, bind_assoc]

theorem runWithin_append (ts ts' : List Token) :
    s.runWithin depth (ts ++ ts') u =
      ts.foldlM (takeWithin depth) s >>= fun s' => s'.runWithin depth ts' u := by
  unfold runWithin
  rw [List.foldlM_append, bind_assoc]

theorem runWithin_cons :
    s.runWithin depth (t :: ts) u = s.takeWithin depth t >>= fun s' => s'.runWithin depth ts u := by
  unfold runWithin
  rw [List.foldlM_cons, bind_assoc]

theorem takeWithin_of_lt (h : s.opened.length < depth) : s.takeWithin depth t = s.take t :=
  if_pos (.inl h)

theorem takeWithin_of_le (h : depth ≤ s.opened.length) (ht : t.kind = .closer → s.opened = []) :
    s.takeWithin depth t = .error .tooDeep := by
  refine if_neg ?_
  rintro (hlt | ⟨hcloser, hopened⟩)
  · omega
  · exact hopened (ht hcloser)

theorem take_of_takeWithin (h : s.takeWithin depth t = .ok s') : s.take t = .ok s' := by
  unfold takeWithin at h
  split at h
  · exact h
  · cases h

theorem runWithin_of_take (h : s.takeWithin depth t = .ok s') :
    s.runWithin depth (t :: ts) u = s'.runWithin depth ts u := by
  rw [runWithin_cons, h]
  rfl

theorem runWithin_of_take_error (h : s.takeWithin depth t = .error fault) :
    s.runWithin depth (t :: ts) u = .error fault := by
  rw [runWithin_cons, h]
  rfl

theorem take_openToken : s.take b.openToken = .ok ⟨(b, []) :: s.opened, s.data⟩ := by
  rw [take, Bracket.openToken]
  dsimp only
  rw [Bracket.ofOpener?_opener]

theorem take_closeToken :
    (⟨(b, items) :: outer, data⟩ : Pass).take b.closeToken =
      .ok (add ⟨outer, data⟩ (.list items.reverse)) := by
  rw [take, Bracket.closeToken]
  exact if_pos (Bracket.closedBy_iff.mpr rfl)

/-- A token opens at most one list, and a closer none. -/
theorem length_opened_take (h : s.take t = .ok s') :
    s'.opened.length ≤ s.opened.length + 1 ∧
      (t.kind = .closer → s'.opened.length ≤ s.opened.length) := by
  obtain ⟨kind, text⟩ := t
  unfold take at h
  cases kind with
  | word =>
    obtain ⟨d, -, h⟩ := exists_of_bind_eq_ok h
    cases h
    simp
  | string =>
    obtain ⟨d, -, h⟩ := exists_of_bind_eq_ok h
    cases h
    simp
  | opener =>
    dsimp only at h
    split at h
    · cases h
      simp
    · cases h
  | closer =>
    dsimp only at h
    split at h
    · cases h
    · rename_i hopened
      split at h
      · cases h
        simp [hopened]
        omega
      · cases h
  | other kind => cases h

/-! ## What is spelled is taken -/

/-- Parts that are taken for data each are taken for all of their data. -/
theorem runWithin_of_forall {parts : List (List Token × Datum)} {n : Nat}
    (h : ∀ p ∈ parts, ∀ (s : Pass) (rest : List Token), s.opened.length = n →
      s.runWithin depth (p.1 ++ rest) u = (s.add p.2).runWithin depth rest u)
    (s : Pass) (hs : s.opened.length = n) (rest : List Token) :
    s.runWithin depth (parts.flatMap Prod.fst ++ rest) u =
      ((parts.map Prod.snd).foldl add s).runWithin depth rest u := by
  induction parts generalizing s with
  | nil => rfl
  | cons p parts ih =>
    obtain ⟨hp, hparts⟩ := List.forall_mem_cons.mp h
    have hadd : (s.add p.2).opened.length = n := (length_opened_add s p.2).trans hs
    rw [List.flatMap_cons, List.append_assoc, hp s _ hs, ih hparts _ hadd, List.map_cons,
      List.foldl_cons]

/-- Tokens that spell a datum are taken for that datum wherever it is not too deep. -/
theorem runWithin_of_spells {d : Datum} (h : Spells ts d) (s : Pass)
    (hdepth : s.opened.length + d.height ≤ depth) (rest : List Token) :
    s.runWithin depth (ts ++ rest) u = (s.add d).runWithin depth rest u := by
  -- On the spelling. Between its brackets a list is the innermost one that is open.
  induction h generalizing s rest with
  | word h =>
    have hroom : s.opened.length < depth := by
      have := height_of_ofWord h
      omega
    refine runWithin_of_take ?_
    rw [takeWithin_of_lt hroom, take, h]
    rfl
  | string hplain h =>
    have hroom : s.opened.length < depth := by
      have := height_of_ofLiteral hplain h
      omega
    refine runWithin_of_take ?_
    rw [takeWithin_of_lt hroom, take, h]
    rfl
  | @list b parts _ ih =>
    rw [Datum.height] at hdepth
    have hheights := Datum.heightAll_le_iff.mp (Nat.le_refl (Datum.heightAll (parts.map Prod.snd)))
    have hopen : s.takeWithin depth b.openToken = .ok ⟨(b, []) :: s.opened, s.data⟩ :=
      (takeWithin_of_lt (by omega)).trans take_openToken
    have hitems := runWithin_of_forall (n := s.opened.length + 1) (fun p hp s' rest hs' => by
        have := hheights p.2 (List.mem_map_of_mem hp)
        exact ih p hp s' (by omega) rest)
      ⟨(b, []) :: s.opened, s.data⟩ rfl (b.closeToken :: rest)
    have hclose : takeWithin depth ⟨(b, (parts.map Prod.snd).reverse) :: s.opened, s.data⟩
        b.closeToken = .ok (add ⟨s.opened, s.data⟩ (.list (parts.map Prod.snd))) := by
      rw [takeWithin, if_pos (.inr ⟨rfl, List.cons_ne_nil _ _⟩), take_closeToken,
        List.reverse_reverse]
    rw [foldl_add_opened, List.append_nil, runWithin_of_take hclose] at hitems
    rw [List.cons_append, List.append_assoc, List.singleton_append, runWithin_of_take hopen,
      hitems]

theorem runWithin_of_parts {parts : List (List Token × Datum)} (h : SpelledWithin left parts)
    (s : Pass) (hs : s.opened.length + left = depth) (rest : List Token) :
    s.runWithin depth (parts.flatMap Prod.fst ++ rest) u =
      ((parts.map Prod.snd).foldl add s).runWithin depth rest u := by
  refine runWithin_of_forall (fun p hp s' rest hs' => ?_) s rfl rest
  obtain ⟨hspells, hheight⟩ := h p hp
  exact runWithin_of_spells hspells s' (by omega) rest

/-! ## Where the reader stops -/

/-- Where the reader stops among the items of a list, of which the brackets are open already, the
    pass stops. -/
theorem runWithin_of_readItems {r : TokenStream}
    (ih : ∀ (t : Token) (ts : List Token) (s : Pass) (fault : Fault) (r : TokenStream),
      ts.length < most → (∀ t' ∈ t :: ts, t'.IsPlain) → t.kind ≠ .closer →
      s.opened.length + left = depth → readDatum most left (cut (t :: ts) u) = .error fault r →
      s.runWithin depth (t :: ts) u = .error fault)
    (hmost : ts.length < most) (hplain : ∀ t ∈ ts, t.IsPlain)
    (hdepth : outer.length + 1 + left = depth)
    (hread : readItems (readDatum most left) b most [] (cut ts u) = .error fault r) :
    (⟨(b, []) :: outer, data⟩ : Pass).runWithin depth ts u = .error fault := by
  have hopened : (⟨(b, []) :: outer, data⟩ : Pass).opened.length + left = depth := hdepth
  obtain ⟨parts, more, rest, rfl, hparts, hcount, hstop, hrun⟩ |
      ⟨fault', r', hrun, -, parts, t, rest, rfl, hparts, ht, hfails⟩ :=
    (gathers_readItems most left b).parts (readsFrom_readDatum most left u) most [] ts hplain
  · -- All items before the place where the loop stops are spelled, so the pass takes them.
    have hlength := (length_parts_le fun p hp => (hparts p hp).1).1
    rw [List.length_append] at hmost
    rw [hrun] at hread
    rw [runWithin_of_parts hparts _ hopened, foldl_add_opened]
    cases more with
    | zero => omega  -- The loop may take more items than there are tokens.
    | succ more =>
      cases rest with
      | nil =>
        cases u with
        | none =>
          rw [readItems_nil] at hread
          cases hread
          rfl
        | some cause =>
          rw [readItems_stopped] at hread
          cases hread
          rfl
      | cons t rest =>
        obtain ⟨kind, text⟩ := t
        obtain rfl : kind = .closer := by simpa using hstop
        rw [readItems_closer] at hread
        split at hread
        · cases hread
        · rename_i hclosed
          cases hread
          refine runWithin_of_take_error ?_
          rw [takeWithin, if_pos (.inr ⟨rfl, List.cons_ne_nil _ _⟩)]
          exact if_neg hclosed
  · -- An item cannot be read. The pass takes the items before it and stops within it.
    rw [hrun] at hread
    cases hread
    rw [runWithin_of_parts hparts _ hopened]
    rw [List.length_append, List.length_cons] at hmost
    refine ih t rest _ fault r (by omega) (List.forall_mem_append.mp hplain).2 ht ?_ hfails
    rw [length_opened_foldl_add]
    exact hopened

/-- Where the reader stops in a datum, the pass stops. A closer stops both only where no list is
    open: the reader looks at it before it reads an item of a list. -/
theorem runWithin_of_readDatum (t : Token) (ts : List Token) (s : Pass) (fault : Fault)
    (r : TokenStream) (hmost : ts.length < most) (hplain : ∀ t' ∈ t :: ts, t'.IsPlain)
    (ht : t.kind = .closer → s.opened = []) (hdepth : s.opened.length + left = depth)
    (hread : readDatum most left (cut (t :: ts) u) = .error fault r) :
    s.runWithin depth (t :: ts) u = .error fault := by
  -- On the depth that is left: the items of a list are read with one activation less.
  induction left generalizing t ts s fault r with
  | zero =>
    rw [readDatum_zero] at hread
    cases hread
    exact runWithin_of_take_error (takeWithin_of_le (by omega) ht)
  | succ left ih =>
    have hroom : s.opened.length < depth := by omega
    obtain ⟨kind, text⟩ := t
    cases kind with
    | word =>
      rw [readDatum_word] at hread
      cases hword : Datum.ofWord text with
      | ok d => rw [hword] at hread; cases hread
      | error fault' =>
        rw [hword] at hread
        cases hread
        refine runWithin_of_take_error ?_
        rw [takeWithin_of_lt hroom, take, hword]
        rfl
    | string =>
      rw [readDatum_string] at hread
      cases hliteral : Datum.ofLiteral text with
      | ok d => rw [hliteral] at hread; cases hread
      | error fault' =>
        rw [hliteral] at hread
        cases hread
        refine runWithin_of_take_error ?_
        rw [takeWithin_of_lt hroom, take, hliteral]
        rfl
    | opener =>
      rw [readDatum_opener] at hread
      cases hbracket : Bracket.ofOpener? text with
      | none =>
        rw [hbracket] at hread
        cases hread
        refine runWithin_of_take_error ?_
        rw [takeWithin_of_lt hroom, take, hbracket]
      | some b =>
        rw [hbracket] at hread
        dsimp only at hread
        have htake : s.takeWithin depth ⟨.opener, text⟩ = .ok ⟨(b, []) :: s.opened, s.data⟩ := by
          rw [takeWithin_of_lt hroom, take, hbracket]
        cases hitems : readItems (readDatum most left) b most [] (cut ts u) with
        | ok items r' => rw [hitems] at hread; cases hread
        | error fault' r' =>
          rw [hitems] at hread
          cases hread
          rw [runWithin_of_take htake]
          exact runWithin_of_readItems
            (fun t ts s fault r hmost hplain ht =>
              ih t ts s fault r hmost hplain fun h => absurd h ht)
            hmost (List.forall_mem_cons.mp hplain).2 (by omega) hitems
    | closer =>
      rw [readDatum_closer] at hread
      cases hread
      refine runWithin_of_take_error ?_
      rw [takeWithin_of_lt hroom, take, ht rfl]
    | other kind =>
      rw [readDatum_other] at hread
      cases hread
      refine runWithin_of_take_error ?_
      rw [takeWithin_of_lt hroom]
      rfl

/-- Reading all data is the pass with the same bound on nesting. -/
theorem result_readDataWith (hmost : ts.length < most) (hplain : ∀ t ∈ ts, t.IsPlain) :
    result (readDataWith (readDatum most depth) most []) (cut ts u) =
      start.runWithin depth ts u := by
  have hdepth : start.opened.length + depth = depth := Nat.zero_add depth
  obtain ⟨parts, more, rest, rfl, hparts, hcount, hstop, hrun⟩ |
      ⟨fault, r, hrun, -, parts, t, rest, rfl, hparts, ht, hfails⟩ :=
    (gathers_readDataWith most depth).parts (readsFrom_readDatum most depth u) most [] ts hplain
  · -- The tokens are used up, or a closer stands where nothing is open.
    have hlength := (length_parts_le fun p hp => (hparts p hp).1).1
    rw [List.length_append] at hmost
    rw [result, hrun, runWithin_of_parts hparts _ hdepth, start, foldl_add_top]
    cases more with
    | zero => omega
    | succ more =>
      cases rest with
      | nil =>
        cases u with
        | none =>
          rw [readDataWith_nil]
          rfl
        | some cause =>
          rw [readDataWith_stopped]
          rfl
      | cons t rest =>
        obtain ⟨kind, text⟩ := t
        obtain rfl : kind = .closer := by simpa using hstop
        rw [readDataWith_cons]
        cases depth with
        | zero =>
          rw [readDatum_zero]
          exact (runWithin_of_take_error (takeWithin_of_le (Nat.zero_le _) fun _ => rfl)).symm
        | succ depth =>
          rw [readDatum_closer]
          exact (runWithin_of_take_error (takeWithin_of_lt (Nat.zero_lt_succ depth))).symm
  · rw [List.length_append, List.length_cons] at hmost
    rw [result, hrun, runWithin_of_parts hparts _ hdepth, start, foldl_add_top]
    have hdepth' :
        (⟨[], (parts.map Prod.snd).reverse ++ []⟩ : Pass).opened.length + depth = depth :=
      hdepth
    exact (runWithin_of_readDatum t rest _ fault r (by omega) (List.forall_mem_append.mp hplain).2
      (fun _ => rfl) hdepth' hfails).symm

/-! ## The bound on nesting -/

/-- The reader and the pass stop at the same fault, unless it is the depth that stops the reader;
    that takes as many tokens as the depth allows nested data. -/
def StopsAlike (s : Pass) (depth : Nat) (ts : List Token) (u : Option LexFault)
    (fault : Fault) : Prop :=
  (fault = .tooDeep ∧ depth ≤ ts.length) ∨ s.run ts u = .error fault

/-- With a bound of `left` more lists, the pass has no other results and stops at no other faults,
    but for that of the bound. -/
theorem ends_runWithin (s : Pass) (left : Nat) (ts : List Token) (u : Option LexFault) :
    Ends (fun ds => s.run ts u = .ok ds) (s.StopsAlike left ts u)
      (s.runWithin (s.opened.length + left) ts u) := by
  induction ts generalizing s left with
  | nil =>
    have hnil : s.runWithin (s.opened.length + left) [] u = s.run [] u := rfl
    rw [hnil]
    unfold StopsAlike
    cases s.run [] u with
    | ok ds => exact .ok rfl
    | error fault => exact .error (.inr rfl)
  | cons t ts ih =>
    unfold StopsAlike
    rw [runWithin_cons, run_cons, takeWithin]
    by_cases hroom : s.opened.length < s.opened.length + left ∨ (t.kind = .closer ∧ s.opened ≠ [])
    · rw [if_pos hroom]
      cases htake : s.take t with
      | error fault => exact .error (.inr rfl)
      | ok s' =>
        obtain ⟨hle, hcloser⟩ := length_opened_take htake
        -- What is left after the token: one less at most, if the token opens a list.
        have hroom' : s'.opened.length ≤ s.opened.length + left := by
          rcases hroom with hlt | ⟨hkind, -⟩
          · omega
          · have := hcloser hkind
            omega
        have hrest := ih s' (s.opened.length + left - s'.opened.length)
        rw [Nat.add_sub_cancel' hroom'] at hrest
        refine hrest.mono (fun ds h => h) ?_
        rintro fault (⟨rfl, hlong⟩ | hstops)
        · refine .inl ⟨rfl, ?_⟩
          rw [List.length_cons]
          omega
        · exact .inr hstops
    · rw [if_neg hroom]
      refine .error (.inl ⟨rfl, ?_⟩)
      have : ¬s.opened.length < s.opened.length + left := fun h => hroom (.inl h)
      omega

/-! ## What can stop the pass -/

/-- The faults of a token in its place: a closer where nothing is open, a closer of another shape,
    a string that stands for no text, a numeral of too many digits. -/
def stopsAtToken : Fault → Bool
  | .strayCloser _ | .mismatched _ _ | .badLiteral _ _ | .longNumeral _ => true
  | _ => false

theorem ends_take (s : Pass) {t : Token} (h : t.IsLexeme) :
    Ends (fun _ => True) (fun fault => stopsAtToken fault = true) (s.take t) := by
  cases h with
  | opener b =>
    rw [take_openToken]
    exact .ok trivial
  | closer b =>
    obtain ⟨opened, data⟩ := s
    cases opened with
    | nil => exact .error rfl
    | cons list outer => exact Ends.ite (.ok trivial) (.error rfl)
  | @string body hbody =>
    unfold take
    dsimp only
    cases hliteral : Datum.ofLiteral (Text.ofList (.char '\x22' :: (body ++ [.char '\x22']))) with
    | ok d => exact .ok trivial
    | error fault =>
      obtain ⟨cause, rfl⟩ :=
        eq_badLiteral_of_ofLiteral (Lexer.isString_of_enclosed hbody) hliteral
      exact .error rfl
  | @word cs _ _ =>
    unfold take
    dsimp only
    cases hword : Datum.ofWord (Text.ofList cs) with
    | ok d => exact .ok trivial
    | error fault =>
      obtain ⟨digits, rfl⟩ := eq_longNumeral_of_ofWord hword
      exact .error rfl

/-- No other fault can stop the pass among the tokens of a text. -/
theorem ends_scan (s : Pass) (h : ∀ t ∈ ts, t.IsLexeme) :
    Ends (fun _ => True) (fun fault => stopsAtToken fault = true) (s.scan ts) := by
  induction ts generalizing s with
  | nil => exact .ok trivial
  | cons t ts ih =>
    obtain ⟨ht, hts⟩ := List.forall_mem_cons.mp h
    rw [scan, List.foldlM_cons]
    exact (ends_take s ht).bind fun s' _ => ih s' hts

/-- How the pass over the tokens of a text ends: with a result only if all strings are closed, and
    else at a token, at a string that is not closed, or, if there is none, at a list that is
    not. -/
theorem ends_run (s : Pass) (h : ∀ t ∈ ts, t.IsLexeme) (u : Option LexFault) :
    Ends (fun _ => u = none) (fun fault => stopsAtToken fault = true ∨
      (∃ cause, u = some cause ∧ fault = .lexing cause) ∨
      (u = none ∧ ∃ b, fault = .unmatched b)) (s.run ts u) := by
  refine ((ends_scan s h).mono (fun _ h => h) fun _ hfault => .inl hfault).bind fun s' _ => ?_
  obtain ⟨opened, data⟩ := s'
  cases u with
  | some cause => exact .error (.inr (.inl ⟨cause, rfl, rfl⟩))
  | none =>
    cases opened with
    | nil => exact .ok rfl
    | cons list outer => exact .error (.inr (.inr ⟨rfl, list.1, rfl⟩))

end Pass

/-! ## Whole texts -/

/-- Reading a text is the pass over its tokens, with the same bound on nesting. -/
theorem read_eq_runWithin (depth : Nat) (source : Text) :
    read depth source =
      Pass.start.runWithin depth (lex source).tokens (lex source).stopped := by
  rw [read_eq]
  exact Pass.result_readDataWith (Nat.lt_succ_self _) fun _ ht => (isLexeme_of_mem_lex ht).isPlain

/-- Reading a text is the pass over its tokens, unless it nests too deep, for which a text has to
    have as many tokens as the depth allows. -/
theorem read_eq_or_tooDeep (depth : Nat) (source : Text) :
    (read depth source = .error .tooDeep ∧ depth ≤ (lex source).tokens.length) ∨
      read depth source = readInOnePass source := by
  have hends := Pass.ends_runWithin .start depth (lex source).tokens (lex source).stopped
  have hstart : Pass.start.opened.length + depth = depth := Nat.zero_add depth
  rw [hstart, ← read_eq_runWithin] at hends
  cases hread : read depth source with
  | ok ds => exact .inr (hends.good_of_eq_ok hread).symm
  | error fault =>
    obtain ⟨rfl, hlong⟩ | hstops := hends.allowed_of_eq_error hread
    · exact .inl ⟨rfl, hlong⟩
    · exact .inr hstops.symm

theorem ends_readInOnePass (source : Text) :
    Ends (fun _ => (lex source).stopped = none) (fun fault => Pass.stopsAtToken fault = true ∨
      (∃ cause, (lex source).stopped = some cause ∧ fault = .lexing cause) ∨
      ((lex source).stopped = none ∧ ∃ b, fault = .unmatched b)) (readInOnePass source) :=
  Pass.ends_run .start (fun _ ht => isLexeme_of_mem_lex ht) _

theorem readInOnePass_ne_tooDeep (source : Text) : readInOnePass source ≠ .error .tooDeep := by
  intro h
  rcases (ends_readInOnePass source).allowed_of_eq_error h with h | ⟨_, _, h⟩ | ⟨_, _, h⟩
  · cases h
  · cases h
  · cases h

theorem readInOnePass_ne_unmatched {source : Text} {cause : LexFault}
    (hu : (lex source).stopped = some cause) (b : Bracket) :
    readInOnePass source ≠ .error (.unmatched b) := by
  intro h
  rcases (ends_readInOnePass source).allowed_of_eq_error h with h | ⟨_, _, h⟩ | ⟨h, _⟩
  · cases h
  · cases h
  · rw [hu] at h
    cases h

/-- Unless its depth stops it, the reader succeeds exactly on the texts whose tokens are balanced,
    with leaves that can be decoded, and whose strings are closed. -/
theorem exists_read_iff {depth : Nat} {source : Text}
    (hdeep : read depth source ≠ .error .tooDeep) :
    (∃ ds, read depth source = .ok ds) ↔
      Dyck ((lex source).tokens.filter Token.isBracket) ∧ (lex source).stopped = none ∧
        ∀ t ∈ (lex source).tokens, t.Decodes := by
  have hlexemes : ∀ t ∈ (lex source).tokens, t.IsLexeme := fun _ ht => isLexeme_of_mem_lex ht
  constructor
  · rintro ⟨ds, hread⟩
    obtain ⟨parts, hts, hparts, -⟩ := exists_spells_of_read hread
    have hpass : readInOnePass source = .ok ds := by
      rcases read_eq_or_tooDeep depth source with ⟨hdeep', -⟩ | hpass
      · exact absurd hdeep' hdeep
      · rw [← hpass, hread]
    obtain ⟨hdyck, hdecodes⟩ :=
      (spelled_iff hlexemes).mp ⟨parts, hts, fun p hp => (hparts p hp).1⟩
    exact ⟨hdyck, (ends_readInOnePass source).good_of_eq_ok hpass, hdecodes⟩
  · rintro ⟨hdyck, hu, hdecodes⟩
    obtain ⟨parts, hts, hparts⟩ := (spelled_iff hlexemes).mpr ⟨hdyck, hdecodes⟩
    have hlex : lex source = ⟨parts.flatMap Prod.fst, none⟩ := by
      rw [← hts, ← hu]
    have hread := read_of_spells hlex hparts depth
    by_cases hheight : Datum.heightAll (parts.map Prod.snd) ≤ depth
    · exact ⟨_, hread.trans (if_pos hheight)⟩
    · exact absurd (hread.trans (if_neg hheight)) hdeep

end

/-- The reader is a single pass over the tokens with a stack of the open brackets. With enough
    depth it never stops for its depth; and unless it does, it gives what the pass gives: the fault
    of the first token that cannot be taken, or else that of a string that is not closed, or else
    that of the innermost list that is not closed, or else the data. So it succeeds exactly on the
    texts whose brackets are balanced, whose strings are closed and whose leaves can be decoded. -/
theorem read_eq_readInOnePass [Host] (depth : Nat) (source : Text) :
    ((lex source).tokens.length < depth → read depth source ≠ .error .tooDeep) ∧
    (read depth source ≠ .error .tooDeep →
      read depth source = readInOnePass source ∧
      ((∃ ds, read depth source = .ok ds) ↔
        Dyck ((lex source).tokens.filter Token.isBracket) ∧ (lex source).stopped = none ∧
          ∀ t ∈ (lex source).tokens, t.Decodes)) ∧
    (∀ fault, Pass.start.scan (lex source).tokens = .error fault →
      Pass.stopsAtToken fault = true) ∧
    (∀ cause b, (lex source).stopped = some cause →
      read depth source ≠ .error (.unmatched b)) := by
  refine ⟨?_, ?_, ?_, ?_⟩
  · intro hdepth hdeep
    rcases read_eq_or_tooDeep depth source with ⟨-, hle⟩ | hpass
    · omega
    · exact readInOnePass_ne_tooDeep source (hpass ▸ hdeep)
  · intro hdeep
    rcases read_eq_or_tooDeep depth source with ⟨hdeep', -⟩ | hpass
    · exact absurd hdeep' hdeep
    · exact ⟨hpass, exists_read_iff hdeep⟩
  · intro fault hfault
    exact (Pass.ends_scan .start fun _ ht => isLexeme_of_mem_lex ht).allowed_of_eq_error hfault
  · intro cause b hu
    rcases read_eq_or_tooDeep depth source with ⟨hdeep, -⟩ | hpass
    · rw [hdeep]
      simp
    · rw [hpass]
      exact readInOnePass_ne_unmatched hu b

/-- A closer of another shape is reported before the string behind it that is not closed, and such
    a string before the lists that are open around it. -/
theorem read_eq_readInOnePass_first_fault :
    letI := Host.bare
    read 9 "(a [b) \"c" = .error (.mismatched .square ")") ∧
      (Fault.mismatched .square ")").words = "expected ']' to close '[' but found ')'" ∧
      read 9 "(a [b \"c" = .error (.lexing (.unclosedString 6)) := by
  let _ := Host.bare
  have hlex : lex "(a [b) \"c" = ⟨[⟨.opener, "("⟩, ⟨.word, "a"⟩, ⟨.opener, "["⟩, ⟨.word, "b"⟩,
      ⟨.closer, ")"⟩], some (.unclosedString 7)⟩ := by decide +kernel
  have hlex' : lex "(a [b \"c" = ⟨[⟨.opener, "("⟩, ⟨.word, "a"⟩, ⟨.opener, "["⟩, ⟨.word, "b"⟩],
      some (.unclosedString 6)⟩ := by decide +kernel
  obtain ⟨hdeep, hpass, -⟩ := read_eq_readInOnePass 9 "(a [b) \"c"
  obtain ⟨hdeep', hpass', -⟩ := read_eq_readInOnePass 9 "(a [b \"c"
  refine ⟨(hpass (hdeep ?_)).1.trans ?_, rfl, (hpass' (hdeep' ?_)).1.trans ?_⟩
  · rw [hlex]
    decide
  · rw [readInOnePass, hlex]
    rfl
  · rw [hlex']
    decide
  · rw [readInOnePass, hlex']
    rfl

end MiniLisp
