/-
  MiniLisp.Proofs.Reader.Accounting

  A token stream gives account of its tokens, whatever is asked of it and in
  whatever order, also when steps fail and others go on from what they leave.

  What a step may do is said without streams and buffers, over lists of tokens:
  `Takes` gives for each answer the tokens that it uses, from the front of those
  that are left. A datum uses the tokens that a pass takes for it. A step that
  fails uses the tokens up to the one that the pass cannot take, with that one
  (`Pass.Stops`). A `Ledger` is a run of such steps.

  `Yields` is how the operations of streams are followed: it says which tokens are
  gone when an operation ends, and goes through `bind`. From the two operations
  that touch the buffer it is carried to the loops of the reader and to the
  steps (`takes_step`); the rest is about ledgers.
-/
import MiniLisp.Proofs.Reader.SinglePass

namespace MiniLisp

/-! ## Where a pass stops -/

section

variable [Host]

/-- Reading a literal meets no bound on nesting. -/
theorem Datum.ofLiteral_ne_tooDeep (text : Text) : Datum.ofLiteral text ≠ .error .tooDeep := by
  intro h
  unfold Datum.ofLiteral at h
  split at h
  · split at h <;> cases h
  · split at h <;> cases h

namespace Pass

variable {depth : Nat} {p p' p'' : Pass} {t : Token} {ts ts' used rest : List Token}
  {fromText : Bool} {fault : Fault}

/-- The pass takes the tokens `ts` and is at `p'` then. -/
def Reaches (depth : Nat) (p : Pass) (ts : List Token) (p' : Pass) : Prop :=
  ts.foldlM (takeWithin depth) p = .ok p'

theorem Reaches.nil : p.Reaches depth [] p := rfl

theorem Reaches.single (h : p.takeWithin depth t = .ok p') : p.Reaches depth [t] p' := by
  rw [Reaches, List.foldlM_cons, h]
  rfl

theorem Reaches.append (h : p.Reaches depth ts p') (h' : p'.Reaches depth ts' p'') :
    p.Reaches depth (ts ++ ts') p'' := by
  unfold Reaches at *
  rw [List.foldlM_append, h]
  exact h'

/-- Each token opens one list at most. -/
theorem Reaches.length_opened_le (h : p.Reaches depth ts p') :
    p'.opened.length ≤ p.opened.length + ts.length := by
  induction ts generalizing p with
  | nil =>
    cases h
    exact Nat.le_refl _
  | cons t ts ih =>
    rw [Reaches, List.foldlM_cons] at h
    obtain ⟨p₁, htake, hrest⟩ := exists_of_bind_eq_ok h
    have hone := (length_opened_take (take_of_takeWithin htake)).1
    have hmore := ih hrest
    rw [List.length_cons]
    omega

/-- Only the bound on nesting makes a pass stop for its depth. -/
theorem le_of_takeWithin_eq_tooDeep (h : p.takeWithin depth t = .error .tooDeep) :
    depth ≤ p.opened.length := by
  refine Nat.le_of_not_lt fun hlt => ?_
  rw [takeWithin_of_lt hlt] at h
  obtain ⟨kind, text⟩ := t
  unfold take at h
  cases kind with
  | word =>
    obtain hword | ⟨_, _, h⟩ := cases_of_bind_eq_error h
    · obtain ⟨digits, hdigits⟩ := TokenStream.eq_longNumeral_of_ofWord hword
      cases hdigits
    · cases h
  | string =>
    obtain hliteral | ⟨_, _, h⟩ := cases_of_bind_eq_error h
    · exact absurd hliteral (Datum.ofLiteral_ne_tooDeep text)
    · cases h
  | opener =>
    dsimp only at h
    split at h <;> cases h
  | closer =>
    dsimp only at h
    split at h
    · cases h
    · split at h <;> cases h
  | other kind => cases h

/-- The pass stops at a fault before another datum of the top level is complete, when the tokens
    `used` are gone and `rest` is left. -/
inductive Stops (depth : Nat) (fromText : Bool) (p : Pass) :
    Fault → List Token → List Token → Prop
  /-- A token cannot be taken; it is the last one used. -/
  | token {fault : Fault} {front rest : List Token} {p' : Pass} {t : Token}
      (h : p.Reaches depth front p') (hdata : p'.data = p.data)
      (ht : p'.takeWithin depth t = .error fault) (hdeep : fault ≠ .tooDeep) :
      Stops depth fromText p fault (front ++ [t]) rest
  /-- The tokens end inside a list. -/
  | ended {used : List Token} {p' : Pass} {b : Bracket} {items : List Datum}
      {outer : List (Bracket × List Datum)} (h : p.Reaches depth used p')
      (hdata : p'.data = p.data) (hopened : p'.opened = (b, items) :: outer) :
      Stops depth fromText p (.unmatched b) used []
  /-- Nesting gets too deep at a token that was given, which stays. -/
  | deep {used rest : List Token} {p' : Pass} {t : Token} (hgiven : fromText = false)
      (h : p.Reaches depth used p') (hdata : p'.data = p.data)
      (ht : p'.takeWithin depth t = .error .tooDeep) :
      Stops depth fromText p .tooDeep used (t :: rest)
  /-- Nesting gets too deep at a token of a text, which is not cut any further. -/
  | abandoned {front back : List Token} {p' : Pass} {t : Token} (htext : fromText = true)
      (h : p.Reaches depth front p') (hdata : p'.data = p.data)
      (ht : p'.takeWithin depth t = .error .tooDeep) :
      Stops depth fromText p .tooDeep (front ++ t :: back) []

theorem Stops.behind (h : p.Reaches depth ts p') (hdata : p'.data = p.data)
    (hstops : p'.Stops depth fromText fault used rest) :
    p.Stops depth fromText fault (ts ++ used) rest := by
  cases hstops with
  | token h' hdata' ht hdeep =>
    rw [← List.append_assoc]
    exact .token (h.append h') (hdata'.trans hdata) ht hdeep
  | ended h' hdata' hopened => exact .ended (h.append h') (hdata'.trans hdata) hopened
  | deep hgiven h' hdata' ht => exact .deep hgiven (h.append h') (hdata'.trans hdata) ht
  | abandoned htext h' hdata' ht =>
    rw [← List.append_assoc]
    exact .abandoned htext (h.append h') (hdata'.trans hdata) ht

/-- What stops for its depth has used as many tokens as there may be lists, and met one more. -/
theorem Stops.length_of_tooDeep (h : p.Stops depth fromText .tooDeep used rest) :
    depth < p.opened.length + (used ++ rest).length := by
  generalize hfault : Fault.tooDeep = fault at h
  cases h with
  | token _ _ _ hdeep => exact absurd hfault.symm hdeep
  | ended _ _ _ => cases hfault
  | deep _ h _ ht =>
    have hopened := h.length_opened_le
    have hdepth := le_of_takeWithin_eq_tooDeep ht
    rw [List.length_append, List.length_cons]
    omega
  | abandoned _ h _ ht =>
    have hopened := h.length_opened_le
    have hdepth := le_of_takeWithin_eq_tooDeep ht
    rw [List.append_nil, List.length_append, List.length_cons]
    omega

/-- The pass takes tokens for data of the top level and then stops among the tokens behind. -/
def StopsBehind (depth : Nat) (fromText : Bool) (p : Pass) (fault : Fault)
    (used rest : List Token) : Prop :=
  ∃ front back ds, used = front ++ back ∧ p.Reaches depth front ⟨[], ds⟩ ∧
    Stops depth fromText ⟨[], ds⟩ fault back rest

theorem StopsBehind.of_stops {ds : List Datum} (h : Stops depth fromText ⟨[], ds⟩ fault used rest) :
    StopsBehind depth fromText ⟨[], ds⟩ fault used rest :=
  ⟨[], used, ds, rfl, .nil, h⟩

theorem StopsBehind.behind (h : p.Reaches depth ts p')
    (hstops : p'.StopsBehind depth fromText fault used rest) :
    p.StopsBehind depth fromText fault (ts ++ used) rest := by
  obtain ⟨front, back, ds, rfl, hfront, hback⟩ := hstops
  exact ⟨ts ++ front, back, ds, (List.append_assoc ts front back).symm, h.append hfront, hback⟩

end Pass

end

namespace TokenStream

/-! ## Following operations -/

section

variable {α β : Type} {s s' s'' : TokenStream} {used used' : List Token}
  {good : α → List Token → List Token → Prop} {stopped : Fault → List Token → List Token → Prop}

/-- The tokens `used` are gone from the front of the stream, and nothing else has changed but for a
    token that may have been looked at. -/
structure Consumed (s : TokenStream) (used : List Token) (s' : TokenStream) : Prop where
  tokens : s.tokens = used ++ s'.tokens
  stopped : s'.stopped = none
  fromText : s'.fromText = s.fromText
  buffered : s.buffer.length ≤ 1 → s'.buffer.length ≤ 1

theorem Consumed.refl (hs : s.stopped = none) : Consumed s [] s := ⟨rfl, hs, rfl, id⟩

theorem Consumed.trans (h : Consumed s used s') (h' : Consumed s' used' s'') :
    Consumed s (used ++ used') s'' where
  tokens := by rw [h.tokens, h'.tokens, List.append_assoc]
  stopped := h'.stopped
  fromText := h'.fromText.trans h.fromText
  buffered := h'.buffered ∘ h.buffered

theorem Consumed.length_lt (h : Consumed s used s') (hused : used ≠ []) :
    s'.tokens.length < s.tokens.length := by
  have hpos := List.length_pos_iff.mpr hused
  rw [h.tokens, List.length_append]
  omega

/-- An operation on the stream ends with tokens gone and the rest left: those that are `good` for
    its result, or those with which it is `stopped` at its fault. -/
inductive Yields (good : α → List Token → List Token → Prop)
    (stopped : Fault → List Token → List Token → Prop) (s : TokenStream) :
    EStateM.Result Fault TokenStream α → Prop
  | ok {a : α} {used : List Token} {s' : TokenStream} (h : Consumed s used s')
      (ha : good a used s'.tokens) : Yields good stopped s (.ok a s')
  | error {fault : Fault} {used : List Token} {s' : TokenStream} (h : Consumed s used s')
      (hfault : stopped fault used s'.tokens) : Yields good stopped s (.error fault s')

namespace Yields

theorem mono {good' : α → List Token → List Token → Prop}
    {stopped' : Fault → List Token → List Token → Prop} {r : EStateM.Result Fault TokenStream α}
    (h : Yields good stopped s r) (hgood : ∀ a used rest, good a used rest → good' a used rest)
    (hstopped : ∀ fault used rest, stopped fault used rest → stopped' fault used rest) :
    Yields good' stopped' s r := by
  cases h with
  | ok h ha => exact .ok h (hgood _ _ _ ha)
  | error h hfault => exact .error h (hstopped _ _ _ hfault)

theorem pure {a : α} (hs : s.stopped = none) (ha : good a [] s.tokens) :
    Yields good stopped s ((Pure.pure a : Reading α) s) := .ok (.refl hs) ha

theorem throw {fault : Fault} (hs : s.stopped = none) (hfault : stopped fault [] s.tokens) :
    Yields good stopped s ((MonadExcept.throw fault : Reading α) s) := .error (.refl hs) hfault

/-- The second of two operations goes on with what the first one leaves. -/
theorem bind {good' : β → List Token → List Token → Prop} {op : Reading α} {next : α → Reading β}
    (h : Yields good stopped s (op s))
    (hnext : ∀ a used s', Consumed s used s' → good a used s'.tokens →
      Yields (fun b more rest => good' b (used ++ more) rest)
        (fun fault more rest => stopped fault (used ++ more) rest) s' (next a s')) :
    Yields good' stopped s ((op >>= next) s) := by
  rw [bind_apply]
  generalize op s = r at h
  cases h with
  | error h hfault => exact .error h hfault
  | @ok a used s' h ha =>
    dsimp only
    have hmore := hnext a used s' h ha
    generalize next a s' = r' at hmore
    cases hmore with
    | ok h' hb => exact .ok (h.trans h') hb
    | error h' hfault => exact .error (h.trans h') hfault

theorem map {good : β → List Token → List Token → Prop} {op : Reading α} {f : α → β}
    (h : Yields (fun a used rest => good (f a) used rest) stopped s (op s)) :
    Yields good stopped s ((f <$> op) s) := by
  show Yields good stopped s (EStateM.map f op s)
  unfold EStateM.map
  generalize op s = r at h
  cases h with
  | ok h ha => exact .ok h ha
  | error h hfault => exact .error h hfault

/-- A token that stands for a datum by itself is decoded, or stops the reader. -/
theorem leaf {good : Option Datum → List Token → List Token → Prop} {r : Except Fault Datum}
    (hs : s.stopped = none) (hok : ∀ d, r = .ok d → good (some d) [] s.tokens)
    (herror : ∀ fault, r = .error fault → stopped fault [] s.tokens) :
    Yields good stopped s ((some <$> MonadExcept.ofExcept r : Reading (Option Datum)) s) := by
  cases r with
  | ok d => exact .ok (.refl hs) (hok d rfl)
  | error fault => exact .error (.refl hs) (herror fault rfl)

end Yields

theorem size_eq (s : TokenStream) : s.size = s.tokens.length := by
  rw [size, tokens, List.length_append]

theorem map_apply_congr {op : Reading α} (f : α → β)
    (h : op s = op s') : (f <$> op) s = (f <$> op) s' := by
  show EStateM.map f op s = EStateM.map f op s'
  unfold EStateM.map
  rw [h]

theorem yields_peek (hs : s.stopped = none) :
    Yields (fun t used rest => used = [] ∧ t = rest.head?) stopped s (peek s) := by
  obtain ⟨buffer, pending, stopped, fromText⟩ := s
  cases hs
  cases buffer with
  | cons t buffer => exact .ok (.refl rfl) ⟨rfl, rfl⟩
  | nil =>
    cases pending with
    | nil => exact .ok (.refl rfl) ⟨rfl, rfl⟩
    | cons t pending => exact .ok ⟨rfl, rfl, rfl, fun _ => Nat.le_refl 1⟩ ⟨rfl, rfl⟩

theorem yields_advance (hs : s.stopped = none) :
    Yields (fun t used rest => used = t.toList ∧ t = (used ++ rest).head?) stopped s
      (advance s) := by
  obtain ⟨buffer, pending, stopped, fromText⟩ := s
  cases hs
  cases buffer with
  | cons t buffer =>
    exact .ok ⟨rfl, rfl, rfl, (Nat.le_trans (Nat.le_succ buffer.length) ·)⟩ ⟨rfl, rfl⟩
  | nil =>
    cases pending with
    | nil => exact .ok (.refl rfl) ⟨rfl, rfl⟩
    | cons t pending => exact .ok ⟨rfl, rfl, rfl, id⟩ ⟨rfl, rfl⟩

end

/-! ## The reader -/

section

variable [Host]

variable {depth left most limit : Nat} {b : Bracket} {outer : List (Bracket × List Datum)}
  {data : List Datum}

/-- Reading a datum uses the tokens that the pass takes for it, or those with which the pass
    stops. -/
abbrev YieldsDatum (depth : Nat) (p : Pass) (s : TokenStream) :
    EStateM.Result Fault TokenStream (Option Datum) → Prop :=
  Yields (fun d used _ => ∃ d', d = some d' ∧ used ≠ [] ∧ p.Reaches depth used (p.add d'))
    (p.Stops depth s.fromText) s

/-- The items of a list that is open already, if each of them is read as said. -/
theorem yields_readItems {item : Reading (Option Datum)}
    (hitem : ∀ (p : Pass) (s : TokenStream) (t : Token) (ts : List Token), s.stopped = none →
      s.tokens = t :: ts → ts.length < limit → t.kind ≠ .closer →
      p.opened.length + left = depth → YieldsDatum depth p s (item s))
    (hdepth : outer.length + 1 + left = depth) (most : Nat) (done : List Datum)
    (s : TokenStream) (hs : s.stopped = none) (hlimit : s.tokens.length ≤ limit)
    (hmost : s.tokens.length < most) :
    Yields (fun items used _ => Pass.Reaches depth ⟨(b, done) :: outer, data⟩ used
        (Pass.add ⟨outer, data⟩ (.list items)))
      (Pass.Stops depth s.fromText ⟨(b, done) :: outer, data⟩) s
      (readItems item b most done s) := by
  -- On the bound of the loop. The loop and the pass keep the items in the same order, last first.
  induction most generalizing done s with
  | zero => omega
  | succ most ih =>
    rw [readItems]
    refine (yields_peek hs).bind ?_
    rintro t _ s₁ h₁ ⟨rfl, ht⟩
    have htokens : s.tokens = s₁.tokens := h₁.tokens
    rw [← h₁.fromText]
    cases t with
    | none =>
      have hnil : s₁.tokens = [] := List.head?_eq_none_iff.mp ht.symm
      refine .throw h₁.stopped ?_
      rw [hnil]
      exact .ended .nil rfl rfl
    | some t =>
      obtain ⟨ts, hts⟩ : ∃ ts, s₁.tokens = t :: ts := List.head?_eq_some_iff.mp ht.symm
      obtain ⟨kind, text⟩ := t
      cases kind with
      | closer =>
        have htake : Pass.takeWithin depth ⟨(b, done) :: outer, data⟩ ⟨.closer, text⟩ =
            Pass.take ⟨(b, done) :: outer, data⟩ ⟨.closer, text⟩ :=
          if_pos (.inr ⟨rfl, List.cons_ne_nil _ _⟩)
        -- The closer was looked at, so it is what is consumed.
        refine (yields_advance h₁.stopped).bind ?_
        rintro t used s₂ h₂ ⟨rfl, ht₂⟩
        rw [← h₂.tokens, hts] at ht₂
        cases ht₂
        split
        · rename_i hclosed
          exact .pure h₂.stopped (.single (htake.trans (if_pos hclosed)))
        · rename_i hclosed
          exact .throw h₂.stopped (.token .nil rfl (htake.trans (if_neg hclosed)) (by simp))
      | opener | string | word | other _ =>
        have hcount : s.tokens.length = ts.length + 1 := by rw [htokens, hts, List.length_cons]
        refine (hitem ⟨(b, done) :: outer, data⟩ s₁ _ ts h₁.stopped hts (by omega) (by simp)
          hdepth).bind ?_
        rintro _ used s₂ h₂ ⟨d, rfl, hused, hreaches⟩
        have hless := h₂.length_lt hused
        rw [← htokens] at hless
        have hrest := ih (d :: done) s₂ h₂.stopped (by omega) (by omega)
        rw [h₂.fromText] at hrest
        exact hrest.mono (fun _ _ _ h => hreaches.append h) fun _ _ _ h => .behind hreaches rfl h

/-- One datum, where a token is left; within a list the token is no closer. -/
theorem yields_readDatum (left : Nat) (p : Pass) (s : TokenStream) (t : Token) (ts : List Token)
    (hs : s.stopped = none) (hts : s.tokens = t :: ts) (hmost : ts.length < most)
    (ht : t.kind = .closer → p.opened = []) (hdepth : p.opened.length + left = depth) :
    YieldsDatum depth p s (readDatum most left s) := by
  -- On the depth that is left: the items of a list are read with one activation less.
  induction left generalizing p s t ts with
  | zero =>
    have htake : p.takeWithin depth t = .error .tooDeep := Pass.takeWithin_of_le (by omega) ht
    show Yields _ _ s (.error .tooDeep s.abandon)
    cases hsource : s.fromText with
    | false =>
      rw [abandon, hsource, if_neg (by simp)]
      refine .error (.refl hs) ?_
      rw [hts]
      exact .deep rfl .nil rfl htake
    | true =>
      rw [abandon, hsource, if_pos rfl]
      have hgone : Consumed s ([] ++ t :: ts) finished :=
        ⟨hts.trans (List.append_nil _).symm, rfl, hsource.symm, fun _ => Nat.zero_le 1⟩
      exact .error hgone (.abandoned rfl .nil rfl htake)
  | succ left ih =>
    have htake : p.takeWithin depth t = p.take t := Pass.takeWithin_of_lt (by omega)
    rw [readDatum]
    refine (yields_advance hs).bind ?_
    rintro t' used s₁ h₁ ⟨rfl, ht'⟩
    rw [← h₁.tokens, hts] at ht'
    obtain rfl : t' = some t := ht'
    have hrest : ts = s₁.tokens := (List.cons.inj (hts.symm.trans h₁.tokens)).2
    obtain ⟨kind, text⟩ := t
    cases kind with
    | word =>
      refine .leaf h₁.stopped ?_ ?_
      · intro d hword
        refine ⟨d, rfl, List.cons_ne_nil _ _, .single (htake.trans ?_)⟩
        rw [Pass.take, hword]
        rfl
      · intro fault hword
        obtain ⟨digits, rfl⟩ := eq_longNumeral_of_ofWord hword
        refine .token .nil rfl (htake.trans ?_) (by simp)
        rw [Pass.take, hword]
        rfl
    | string =>
      refine .leaf h₁.stopped ?_ ?_
      · intro d hliteral
        refine ⟨d, rfl, List.cons_ne_nil _ _, .single (htake.trans ?_)⟩
        rw [Pass.take, hliteral]
        rfl
      · intro fault hliteral
        refine .token .nil rfl (htake.trans ?_) ?_
        · rw [Pass.take, hliteral]
          rfl
        · rintro rfl
          exact Datum.ofLiteral_ne_tooDeep text hliteral
    | opener =>
      dsimp only
      cases hbracket : Bracket.ofOpener? text with
      | none =>
        refine .throw h₁.stopped (.token .nil rfl (htake.trans ?_) (by simp))
        rw [Pass.take, hbracket]
      | some b =>
        have hopen : p.Reaches depth [⟨.opener, text⟩] ⟨(b, []) :: p.opened, p.data⟩ := by
          refine .single (htake.trans ?_)
          rw [Pass.take, hbracket]
        rw [hrest] at hmost
        have hitems := @yields_readItems _ depth left most b p.opened p.data (readDatum most left)
          (fun p s t ts hs hts hmost ht => ih p s t ts hs hts hmost fun h => absurd h ht)
          (by omega) most [] s₁ h₁.stopped (Nat.le_of_lt hmost) hmost
        rw [h₁.fromText] at hitems
        refine (hitems.mono (fun _ _ _ h => h) fun _ _ _ h => .behind hopen rfl h).bind ?_
        intro items used s₂ h₂ hreaches
        refine .pure h₂.stopped ⟨.list items, rfl, List.cons_ne_nil _ _, ?_⟩
        rw [List.append_nil]
        exact hopen.append hreaches
    | closer =>
      refine .throw h₁.stopped (.token .nil rfl (htake.trans ?_) (by simp))
      rw [Pass.take, ht rfl]
    | other kind => exact .throw h₁.stopped (.token .nil rfl htake (by simp))

/-- All data up to the end, behind those that are read already. -/
theorem yields_readDataWith (most : Nat) (done : List Datum) (s : TokenStream)
    (hs : s.stopped = none) (hlimit : s.tokens.length ≤ limit) (hmost : s.tokens.length < most) :
    Yields (fun ds used rest => rest = [] ∧ Pass.Reaches depth ⟨[], done⟩ used ⟨[], ds.reverse⟩)
      (Pass.StopsBehind depth s.fromText ⟨[], done⟩) s
      (readDataWith (readDatum limit depth) most done s) := by
  induction most generalizing done s with
  | zero => omega
  | succ most ih =>
    rw [readDataWith]
    refine (yields_peek hs).bind ?_
    rintro t _ s₁ h₁ ⟨rfl, ht⟩
    have htokens : s.tokens = s₁.tokens := h₁.tokens
    rw [← h₁.fromText]
    cases t with
    | none =>
      refine .pure h₁.stopped ⟨List.head?_eq_none_iff.mp ht.symm, ?_⟩
      rw [List.reverse_reverse]
      exact .nil
    | some t =>
      obtain ⟨ts, hts⟩ : ∃ ts, s₁.tokens = t :: ts := List.head?_eq_some_iff.mp ht.symm
      have hcount : s.tokens.length = ts.length + 1 := by rw [htokens, hts, List.length_cons]
      have hdatum : YieldsDatum depth ⟨[], done⟩ s₁ (readDatum limit depth s₁) :=
        yields_readDatum depth ⟨[], done⟩ s₁ t ts h₁.stopped hts (by omega) (fun _ => rfl)
          (Nat.zero_add depth)
      refine (hdatum.mono (fun _ _ _ h => h) fun _ _ _ h => .of_stops h).bind ?_
      rintro _ used s₂ h₂ ⟨d, rfl, hused, hreaches⟩
      have hless := h₂.length_lt hused
      rw [← htokens] at hless
      have hrest := ih (d :: done) s₂ h₂.stopped (by omega) (by omega)
      rw [h₂.fromText] at hrest
      refine hrest.mono (fun _ _ _ h => ⟨h.1, hreaches.append h.2⟩) fun _ _ _ h => ?_
      rw [List.nil_append]
      exact .behind hreaches h

end

/-! ## Steps -/

/-- What can be asked of a stream. -/
inductive Step where
  | peek
  | advance
  /-- The next datum. -/
  | datum
  /-- All data up to the end. -/
  | data
deriving DecidableEq, Repr

/-- What a stream answers. -/
inductive Answer where
  | token (t : Option Token)
  | datum (d : Option Datum)
  | data (ds : List Datum)

section

variable [Host]

/-- The operation that a step performs. -/
def Step.operation (depth : Nat) : Step → Reading Answer
  | .peek => Answer.token <$> TokenStream.peek
  | .advance => Answer.token <$> TokenStream.advance
  | .datum => Answer.datum <$> next depth
  | .data => Answer.data <$> readData depth

/-- Takes a step: its answer, and the stream that it leaves, whether it fails or not. -/
def step (depth : Nat) (s : TokenStream) (c : Step) : Except Fault Answer × TokenStream :=
  match c.operation depth s with
  | .ok a s' => (.ok a, s')
  | .error fault s' => (.error fault, s')

/-- The answers to steps that are taken one after the other. -/
def answers (depth : Nat) (s : TokenStream) : List Step → List (Except Fault Answer)
  | [] => []
  | c :: cs => (s.step depth c).1 :: (s.step depth c).2.answers depth cs

/-- The stream that steps leave. -/
def after (depth : Nat) (s : TokenStream) (cs : List Step) : TokenStream :=
  cs.foldl (fun s c => (s.step depth c).2) s

/-- A step with `used` and then `rest` left may answer so and leave `rest`. -/
inductive Takes (depth : Nat) (fromText : Bool) :
    Step → List Token → List Token → Except Fault Answer → Prop
  | peek (rest : List Token) : Takes depth fromText .peek [] rest (.ok (.token rest.head?))
  | advance (t : Token) (rest : List Token) :
      Takes depth fromText .advance [t] rest (.ok (.token (some t)))
  | advanceAtEnd : Takes depth fromText .advance [] [] (.ok (.token none))
  /-- The tokens used are those of the datum. -/
  | datum {d : Datum} {used rest : List Token} (h : Pass.start.Reaches depth used ⟨[], [d]⟩) :
      Takes depth fromText .datum used rest (.ok (.datum (some d)))
  | datumAtEnd : Takes depth fromText .datum [] [] (.ok (.datum none))
  | datumFails {fault : Fault} {used rest : List Token}
      (h : Pass.start.Stops depth fromText fault used rest) :
      Takes depth fromText .datum used rest (.error fault)
  /-- All tokens are used, and are those of the data. -/
  | data {ds : List Datum} {used : List Token}
      (h : Pass.start.Reaches depth used ⟨[], ds.reverse⟩) :
      Takes depth fromText .data used [] (.ok (.data ds))
  | dataFails {fault : Fault} {used rest : List Token}
      (h : Pass.start.StopsBehind depth fromText fault used rest) :
      Takes depth fromText .data used rest (.error fault)

/-- A run of steps over tokens: the tokens there are, the steps with their answers, the tokens
    that each of them uses, and the tokens left. -/
inductive Ledger (depth : Nat) (fromText : Bool) :
    List Token → List (Step × Except Fault Answer) → List (List Token) → List Token → Prop
  | nil (ts : List Token) : Ledger depth fromText ts [] [] ts
  | cons {c : Step} {a : Except Fault Answer} {used rest left : List Token}
      {run : List (Step × Except Fault Answer)} {uses : List (List Token)}
      (h : Takes depth fromText c used rest a) (hrun : Ledger depth fromText rest run uses left) :
      Ledger depth fromText (used ++ rest) ((c, a) :: run) (used :: uses) left

variable {depth : Nat} {fromText : Bool} {s : TokenStream} {used rest : List Token}
  {a : Except Fault Answer}

/-- A datum step uses no token only at the end of the input. -/
theorem Takes.of_nil (h : Takes (depth + 1) fromText .datum [] rest a) :
    rest = [] ∧ a = .ok (.datum none) := by
  generalize hused : ([] : List Token) = used at h
  cases h with
  | datum h =>
    subst hused
    cases h
  | datumAtEnd => exact ⟨rfl, rfl⟩
  | datumFails h =>
    cases h with
    | token _ _ _ _ => simp at hused
    | abandoned _ _ _ _ => simp at hused
    | ended h _ hopened =>
      subst hused
      cases h
      cases hopened
    | deep _ h _ ht =>
      subst hused
      cases h
      exact absurd (Pass.le_of_takeWithin_eq_tooDeep ht) (Nat.not_succ_le_zero depth)

/-- A step stops for its depth only where there are more tokens than lists may be open. -/
theorem Takes.length_of_tooDeep {c : Step}
    (h : Takes depth fromText c used rest (.error .tooDeep)) : depth < (used ++ rest).length := by
  cases h with
  | datumFails h =>
    have hlength := h.length_of_tooDeep
    rwa [show Pass.start.opened.length = 0 from rfl, Nat.zero_add] at hlength
  | dataFails h =>
    obtain ⟨front, back, ds, rfl, -, hback⟩ := h
    have hlength := hback.length_of_tooDeep
    simp only [List.length_append, List.length_nil] at hlength ⊢
    omega

/-- The tokens that were there are those that the steps used, one step after the other, and those
    that are left. -/
theorem Ledger.eq_flatten {ts left : List Token} {run : List (Step × Except Fault Answer)}
    {uses : List (List Token)} (h : Ledger depth fromText ts run uses left) :
    ts = uses.flatten ++ left := by
  induction h with
  | nil ts => rfl
  | cons _ _ ih => rw [List.flatten_cons, List.append_assoc, ← ih]

theorem Ledger.ne_tooDeep {ts left : List Token} {run : List (Step × Except Fault Answer)}
    {uses : List (List Token)} (h : Ledger depth fromText ts run uses left)
    (hdepth : ts.length ≤ depth) : ∀ r ∈ run, r.2 ≠ .error .tooDeep := by
  induction h with
  | nil ts => exact fun r hr => absurd hr List.not_mem_nil
  | cons h _ ih =>
    refine List.forall_mem_cons.mpr ⟨?_, ih ?_⟩
    · rintro rfl
      have := h.length_of_tooDeep
      omega
    · rw [List.length_append] at hdepth
      omega

/-- Every step uses tokens from the front of the stream and leaves the rest, as its answer says. -/
theorem takes_step (depth : Nat) (hs : s.stopped = none) (c : Step) :
    ∃ used, Consumed s used (s.step (depth + 1) c).2 ∧
      Takes (depth + 1) s.fromText c used (s.step (depth + 1) c).2.tokens
        (s.step (depth + 1) c).1 := by
  have hop : Yields (fun a used rest => Takes (depth + 1) s.fromText c used rest (.ok a))
      (fun fault used rest => Takes (depth + 1) s.fromText c used rest (.error fault)) s
      (c.operation (depth + 1) s) := by
    cases c with
    | peek =>
      refine .map ((yields_peek hs).mono ?_ fun _ _ _ h => h)
      rintro _ _ rest ⟨rfl, rfl⟩
      exact .peek rest
    | advance =>
      refine .map ((yields_advance hs).mono ?_ fun _ _ _ h => h)
      rintro t _ rest ⟨rfl, ht⟩
      cases t with
      | some t => exact .advance t rest
      | none =>
        obtain rfl := List.head?_eq_none_iff.mp ht.symm
        exact .advanceAtEnd
    | datum =>
      refine .map ?_
      rw [next_apply]
      cases hts : s.tokens with
      | nil =>
        rw [readDatum]
        refine (yields_advance hs).bind ?_
        rintro t used s₁ h₁ ⟨rfl, ht⟩
        rw [← h₁.tokens, hts] at ht
        obtain rfl : t = none := ht
        have hnil : s₁.tokens = [] := h₁.tokens.symm.trans hts
        refine .pure h₁.stopped ?_
        rw [hnil]
        exact .datumAtEnd
      | cons t ts =>
        have hmost : ts.length < s.size + 1 := by
          rw [size_eq, hts, List.length_cons]
          omega
        refine (yields_readDatum (depth + 1) .start s t ts hs hts hmost (fun _ => rfl)
          (Nat.zero_add _)).mono ?_ fun _ _ _ h => .datumFails h
        rintro _ used rest ⟨d, rfl, -, hreaches⟩
        exact .datum hreaches
    | data =>
      refine .map ?_
      rw [readData_apply]
      have hsize : s.tokens.length < s.size + 1 := by
        rw [size_eq]
        omega
      refine (yields_readDataWith (s.size + 1) [] s hs (Nat.le_of_lt hsize) hsize).mono ?_
        fun _ _ _ h => .dataFails h
      rintro ds used _ ⟨rfl, hreaches⟩
      exact .data hreaches
  unfold step
  generalize c.operation (depth + 1) s = r at hop
  cases hop with
  | ok h ha => exact ⟨_, h, ha⟩
  | error h hfault => exact ⟨_, h, hfault⟩

/-- Steps one after the other keep a ledger of the tokens, and look at one token ahead at most. -/
theorem exists_ledger (depth : Nat) (hs : s.stopped = none) (cs : List Step) :
    (∃ uses, Ledger (depth + 1) s.fromText s.tokens (cs.zip (s.answers (depth + 1) cs)) uses
      (s.after (depth + 1) cs).tokens) ∧ (s.after (depth + 1) cs).stopped = none ∧
    (s.buffer.length ≤ 1 → (s.after (depth + 1) cs).buffer.length ≤ 1) := by
  induction cs generalizing s with
  | nil => exact ⟨⟨[], .nil _⟩, hs, id⟩
  | cons c cs ih =>
    obtain ⟨used, hused, htakes⟩ := takes_step depth hs c
    obtain ⟨⟨uses, hledger⟩, hafter, hbuffer⟩ := ih hused.stopped
    rw [hused.fromText] at hledger
    refine ⟨⟨used :: uses, ?_⟩, hafter, hbuffer ∘ hused.buffered⟩
    rw [hused.tokens]
    exact .cons htakes hledger

theorem length_answers (depth : Nat) (s : TokenStream) (cs : List Step) :
    (s.answers depth cs).length = cs.length := by
  induction cs generalizing s with
  | nil => rfl
  | cons c cs ih => rw [answers, List.length_cons, ih, List.length_cons]

theorem after_append (depth : Nat) (s : TokenStream) (cs cs' : List Step) :
    s.after depth (cs ++ cs') = (s.after depth cs).after depth cs' := List.foldl_append

/-- Asking for data often enough reaches the end of the input. -/
theorem tokens_after_replicate (depth : Nat) (hs : s.stopped = none) {n : Nat}
    (hn : s.tokens.length ≤ n) : (s.after (depth + 1) (.replicate n .datum)).tokens = [] := by
  induction n generalizing s with
  | zero => exact List.length_eq_zero_iff.mp (Nat.le_zero.mp hn)
  | succ n ih =>
    obtain ⟨used, hused, htakes⟩ := takes_step depth hs .datum
    have hless : (s.step (depth + 1) .datum).2.tokens.length ≤ n := by
      cases used with
      | nil =>
        rw [htakes.of_nil.1]
        exact Nat.zero_le n
      | cons t used =>
        have := hused.length_lt (List.cons_ne_nil t used)
        omega
    exact ih hused.stopped hless

/-- An operation after a look at the next token does what it does without it. -/
theorem operation_of_buffer (depth : Nat) (t : Token) (pending : List Token) (c : Step) :
    c.operation (depth + 1) ⟨[t], pending, none, fromText⟩ =
      c.operation (depth + 1) ⟨[], t :: pending, none, fromText⟩ := by
  have hsize : (⟨[t], pending, none, fromText⟩ : TokenStream).size =
      (⟨[], t :: pending, none, fromText⟩ : TokenStream).size := by
    rw [size_eq, size_eq]
    rfl
  -- Every operation starts with the buffer, and goes on with one and the same stream.
  cases c with
  | peek | advance => rfl
  | datum =>
    refine map_apply_congr Answer.datum ?_
    rw [next_apply, next_apply, hsize]
    rfl
  | data =>
    refine map_apply_congr Answer.data ?_
    rw [readData_apply, readData_apply, hsize]
    rfl

theorem step_of_peeked (depth : Nat) (hs : s.stopped = none) (c : Step) :
    (s.step (depth + 1) .peek).2.step (depth + 1) c = s.step (depth + 1) c := by
  obtain ⟨buffer, pending, stopped, fromText⟩ := s
  cases hs
  cases buffer with
  | cons t buffer => rfl
  | nil =>
    cases pending with
    | nil => rfl
    | cons t pending =>
      show step (depth + 1) ⟨[t], pending, none, fromText⟩ c = _
      rw [step, step, operation_of_buffer]

/-- Looks at the next token that are put in between other steps, here marked by `none`, do not
    change the answers to those. -/
theorem answers_of_peeks (depth : Nat) {s' : TokenStream} (hs : s.stopped = none)
    (hs' : s'.stopped = none) (hsame : ∀ c, s'.step (depth + 1) c = s.step (depth + 1) c)
    (marks : List (Option Step)) :
    ((marks.zip (s'.answers (depth + 1) (marks.map (·.getD .peek)))).filter (·.1.isSome)).map
        (·.2) =
      s.answers (depth + 1) (marks.filterMap id) := by
  induction marks generalizing s s' with
  | nil => rfl
  | cons mark marks ih =>
    cases mark with
    | none =>
      obtain ⟨_, hpeek, -⟩ := takes_step depth hs' .peek
      exact ih hs hpeek.stopped fun c => (step_of_peeked depth hs' c).trans (hsame c)
    | some c =>
      obtain ⟨_, hstep, -⟩ := takes_step depth hs c
      have hrest := ih hstep.stopped hstep.stopped fun _ => rfl
      rw [List.map_cons, Option.getD_some, answers, hsame c]
      exact congrArg (_ :: ·) hrest

end

/-! ## Whole streams -/

/-- A stream before any step: of given tokens, or of a text whose strings are closed. -/
inductive Fresh : List Token → TokenStream → Prop
  | given (ts : List Token) : Fresh ts (ofTokens ts)
  | text {source : Text} (h : (lex source).stopped = none) :
      Fresh (lex source).tokens (ofText source)

theorem Fresh.tokens_eq {ts : List Token} {s : TokenStream} (h : Fresh ts s) :
    s.tokens = ts ∧ s.stopped = none ∧ s.buffer = [] := by
  cases h with
  | given => exact ⟨rfl, rfl, rfl⟩
  | text h => exact ⟨rfl, h, rfl⟩

/-- Whatever steps are taken, in whatever order and whether they fail or not, the tokens used so
    far, the tokens looked at and the pending tokens are the tokens of the stream, in their order.
    At most one token is ever looked at ahead.
    Which tokens a step uses is told by its answer. While tokens are left, asking for a datum uses
    one at least, so asking often enough reaches the end of the input. Looks at the next token that
    are put in between steps change no other answer. Only a text that nests too deep is given up
    with all that is left of it, and the bound on nesting is met only by as many tokens as there may
    be lists. -/
theorem steps_account_for_tokens [Host] {ts : List Token} {s : TokenStream} (h : Fresh ts s)
    {depth : Nat} (hdepth : 0 < depth) (cs : List Step) :
    (∃ uses, Ledger depth s.fromText ts (cs.zip (s.answers depth cs)) uses
        (s.after depth cs).tokens ∧
      ts = uses.flatten ++ ((s.after depth cs).buffer ++ (s.after depth cs).pending)) ∧
    (s.after depth cs).buffer.length ≤ 1 ∧
    ((s.after depth cs).tokens ≠ [] → ∃ used, used ≠ [] ∧
      (s.after depth cs).tokens = used ++ (s.after depth (cs ++ [.datum])).tokens) ∧
    (∀ n, (s.after depth cs).tokens.length ≤ n →
      (s.after depth (cs ++ .replicate n .datum)).tokens = [] ∧
      ((s.after depth (cs ++ .replicate n .datum)).step depth .datum).1 = .ok (.datum none)) ∧
    (∀ marks : List (Option Step), marks.filterMap id = cs →
      ((marks.zip (s.answers depth (marks.map (·.getD .peek)))).filter (·.1.isSome)).map (·.2) =
        s.answers depth cs) ∧
    (ts.length ≤ depth → .error .tooDeep ∉ s.answers depth cs) := by
  obtain ⟨depth, rfl⟩ : ∃ n, depth = n + 1 := ⟨depth - 1, by omega⟩
  obtain ⟨htokens, hs, hbuffer⟩ := h.tokens_eq
  obtain ⟨⟨uses, hledger⟩, hafter, hbuffered⟩ := exists_ledger depth hs cs
  rw [htokens] at hledger
  refine ⟨⟨uses, hledger, hledger.eq_flatten⟩, hbuffered ?_, ?_, ?_, ?_, ?_⟩
  · rw [hbuffer]
    exact Nat.zero_le 1
  · intro hleft
    obtain ⟨used, hused, htakes⟩ := takes_step depth hafter .datum
    refine ⟨used, ?_, ?_⟩
    · rintro rfl
      exact hleft (hused.tokens.trans htakes.of_nil.1)
    · rw [after_append]
      exact hused.tokens
  · intro n hn
    rw [after_append]
    have hend := tokens_after_replicate depth hafter hn
    obtain ⟨used, hused, htakes⟩ :=
      takes_step depth (exists_ledger depth hafter (.replicate n .datum)).2.1 .datum
    obtain ⟨rfl, -⟩ := List.append_eq_nil_iff.mp (hused.tokens.symm.trans hend)
    exact ⟨hend, htakes.of_nil.2⟩
  · rintro marks rfl
    exact answers_of_peeks depth hs hs (fun _ => rfl) marks
  · intro hlength hmem
    rw [← List.map_snd_zip (Nat.le_of_eq (length_answers (depth + 1) s cs))] at hmem
    obtain ⟨r, hr, hdeep⟩ := List.mem_map.mp hmem
    exact hledger.ne_tooDeep hlength r hr hdeep

/-- A list that is closed by the wrong bracket: the step fails with the bracket, and the steps
    behind it go on with the word there. -/
theorem steps_account_for_tokens_recovered :
    letI := Host.bare
    let ts : List Token :=
      [⟨.opener, "("⟩, ⟨.word, "a"⟩, ⟨.opener, "["⟩, ⟨.closer, ")"⟩, ⟨.word, "b"⟩]
    let s := ofTokens ts
    let cs : List Step := [.datum, .peek, .datum]
    s.answers 9 cs = [.error (.mismatched .square ")"), .ok (.token (some ⟨.word, "b"⟩)),
        .ok (.datum (some (.sym ⟨"b"⟩)))] ∧
      s.answers 9 [.datum, .datum] =
        [.error (.mismatched .square ")"), .ok (.datum (some (.sym ⟨"b"⟩)))] ∧
      (∃ uses, Ledger 9 false ts (cs.zip (s.answers 9 cs)) uses [] ∧ ts = uses.flatten) ∧
      ((s.after 9 cs).step 9 .datum).1 = .ok (.datum none) := by
  let _ := Host.bare
  intro ts s cs
  obtain ⟨⟨uses, hledger, hflatten⟩, -, -, hend, -, -⟩ :=
    steps_account_for_tokens (.given ts) (by decide : 0 < 9) cs
  obtain ⟨-, -, -, -, hpeeks, -⟩ :=
    steps_account_for_tokens (.given ts) (by decide : 0 < 9) [.datum, .datum]
  refine ⟨rfl, ?_, ⟨uses, hledger, ?_⟩, (hend 0 ?_).2⟩
  · exact (hpeeks [some .datum, none, some .datum] rfl).symm
  · exact hflatten.trans (List.append_nil _)
  · exact Nat.le_refl 0

end TokenStream

end MiniLisp
