/-
  MiniLisp.Proofs.Reader.Balance

  Which tokens spell data. `Dyck` holds the balanced words over the three pairs
  of brackets. The tokens of a text spell data, one after the other, exactly when
  their brackets form such a word and every leaf among them can be decoded
  (`spelled_iff`).
-/
import MiniLisp.Proofs.Reader.Grammar

namespace MiniLisp

/-- The token is a bracket, opening or closing. -/
def Token.isBracket (t : Token) : Bool := t.kind = .opener ∨ t.kind = .closer

/-- The balanced words over the three pairs of brackets. -/
inductive Dyck : List Token → Prop
  | nil : Dyck []
  /-- A word between brackets of one shape, and a word behind them. -/
  | nest (b : Bracket) {inner after : List Token} (hinner : Dyck inner) (hafter : Dyck after) :
      Dyck (b.openToken :: (inner ++ b.closeToken :: after))

theorem Dyck.append {w w' : List Token} (h : Dyck w) (h' : Dyck w') : Dyck (w ++ w') := by
  induction h with
  | nil => exact h'
  | nest b hinner _ _ ih =>
    rw [List.cons_append, List.append_assoc, List.cons_append]
    exact .nest b hinner ih

variable [Host]

/-- A leaf stands for a datum: a word or a string, if the token is one, can be decoded. -/
def Token.Decodes (t : Token) : Prop :=
  match t.kind with
  | .word => ∃ d, Datum.ofWord t.text = .ok d
  | .string => ∃ d, Datum.ofLiteral t.text = .ok d
  | .opener | .closer | .other _ => True

/-- The tokens spell data, one after the other. -/
def Spelled (ts : List Token) : Prop :=
  ∃ parts : List (List Token × Datum), ts = parts.flatMap Prod.fst ∧ ∀ p ∈ parts, Spells p.1 p.2

namespace Spelled

theorem nil : Spelled [] := ⟨[], rfl, fun _ hp => absurd hp List.not_mem_nil⟩

theorem append {ts ts' : List Token} (h : Spelled ts) (h' : Spelled ts') : Spelled (ts ++ ts') := by
  obtain ⟨parts, rfl, hparts⟩ := h
  obtain ⟨parts', rfl, hparts'⟩ := h'
  exact ⟨parts ++ parts', List.flatMap_append.symm, List.forall_mem_append.mpr ⟨hparts, hparts'⟩⟩

theorem of_spells {ts : List Token} {d : Datum} (h : Spells ts d) : Spelled ts :=
  ⟨[(ts, d)], (List.append_nil ts).symm, List.forall_mem_singleton.mpr h⟩

theorem nest (b : Bracket) {inner : List Token} (h : Spelled inner) :
    Spelled (b.openToken :: (inner ++ [b.closeToken])) := by
  obtain ⟨parts, rfl, hparts⟩ := h
  exact of_spells (.list b hparts)

/-- A lexeme that is no bracket is a leaf. -/
theorem leaf {t : Token} (hlexeme : t.IsLexeme) (hleaf : t.isBracket = false) (h : t.Decodes) :
    Spelled [t] := by
  cases hlexeme with
  | opener b => simp [Token.isBracket, Bracket.openToken] at hleaf
  | closer b => simp [Token.isBracket, Bracket.closeToken] at hleaf
  | string hbody =>
    obtain ⟨d, hd⟩ := h
    exact of_spells (.string (Lexer.isString_of_enclosed hbody) hd)
  | word _ _ =>
    obtain ⟨d, hd⟩ := h
    exact of_spells (.word hd)

theorem leaves {ts : List Token} (hlexemes : ∀ t ∈ ts, t.IsLexeme)
    (hleaves : ∀ t ∈ ts, t.isBracket = false) (h : ∀ t ∈ ts, t.Decodes) : Spelled ts := by
  induction ts with
  | nil => exact nil
  | cons t ts ih =>
    rw [List.forall_mem_cons] at hlexemes hleaves h
    rw [← List.singleton_append]
    exact (leaf hlexemes.1 hleaves.1 h.1).append (ih hlexemes.2 hleaves.2 h.2)

end Spelled

/-- Balanced brackets with leaves between them, all of which can be decoded, spell data. -/
theorem spelled_of_dyck {w : List Token} (hw : Dyck w) {ts : List Token}
    (hts : ts.filter Token.isBracket = w) (hlexemes : ∀ t ∈ ts, t.IsLexeme)
    (hdecodes : ∀ t ∈ ts, t.Decodes) : Spelled ts := by
  -- On the word. The tokens are cut at the outermost pair of brackets: leaves, the opener, what
  -- is between the brackets (with the leaves before the closer), the closer, and what follows.
  induction hw generalizing ts with
  | nil =>
    refine Spelled.leaves hlexemes (fun t ht => ?_) hdecodes
    simpa using List.filter_eq_nil_iff.mp hts t ht
  | @nest b inner after _ _ ihinner ihafter =>
    obtain ⟨before, rest, rfl, hbefore, -, hrest⟩ := List.filter_eq_cons_iff.mp hts
    obtain ⟨within, rest, rfl, hwithin, hrest⟩ := List.filter_eq_append_iff.mp hrest
    obtain ⟨last, behind, rfl, hlast, -, hbehind⟩ := List.filter_eq_cons_iff.mp hrest
    have hinner : (within ++ last).filter Token.isBracket = inner := by
      rw [List.filter_append, hwithin, List.filter_eq_nil_iff.mpr hlast, List.append_nil]
    have hcut : before ++ b.openToken :: (within ++ (last ++ b.closeToken :: behind)) =
        before ++ ((b.openToken :: ((within ++ last) ++ [b.closeToken])) ++ behind) := by
      simp
    rw [hcut] at hlexemes hdecodes ⊢
    simp only [List.forall_mem_append, List.forall_mem_cons] at hlexemes hdecodes
    obtain ⟨hlexBefore, ⟨-, hlexInner, -⟩, hlexBehind⟩ := hlexemes
    obtain ⟨hdecBefore, ⟨-, hdecInner, -⟩, hdecBehind⟩ := hdecodes
    have hinnerSpelled : Spelled (within ++ last) :=
      ihinner hinner (List.forall_mem_append.mpr hlexInner) (List.forall_mem_append.mpr hdecInner)
    have hbeforeSpelled : Spelled before :=
      .leaves hlexBefore (fun t ht => by simpa using hbefore t ht) hdecBefore
    exact hbeforeSpelled.append
      ((hinnerSpelled.nest b).append (ihafter hbehind hlexBehind hdecBehind))

/-- The brackets of the tokens form a balanced word, and the leaves can be decoded. -/
def Balanced (ts : List Token) : Prop :=
  Dyck (ts.filter Token.isBracket) ∧ ∀ t ∈ ts, t.Decodes

theorem Balanced.flatMap {parts : List (List Token × Datum)} (h : ∀ p ∈ parts, Balanced p.1) :
    Balanced (parts.flatMap Prod.fst) := by
  induction parts with
  | nil => exact ⟨.nil, fun t ht => absurd ht List.not_mem_nil⟩
  | cons p parts ih =>
    obtain ⟨⟨hdyck, hdecodes⟩, hparts⟩ := List.forall_mem_cons.mp h
    obtain ⟨hdyck', hdecodes'⟩ := ih hparts
    rw [Balanced, List.flatMap_cons, List.filter_append]
    exact ⟨hdyck.append hdyck', List.forall_mem_append.mpr ⟨hdecodes, hdecodes'⟩⟩

theorem balanced_of_spells {ts : List Token} {d : Datum} (h : Spells ts d) : Balanced ts := by
  induction h with
  | word h => exact ⟨.nil, List.forall_mem_singleton.mpr ⟨_, h⟩⟩
  | string _ h => exact ⟨.nil, List.forall_mem_singleton.mpr ⟨_, h⟩⟩
  | @list b parts _ ih =>
    obtain ⟨hdyck, hdecodes⟩ := Balanced.flatMap ih
    refine ⟨?_, List.forall_mem_cons.mpr ⟨trivial,
      List.forall_mem_append.mpr ⟨hdecodes, List.forall_mem_singleton.mpr trivial⟩⟩⟩
    have hfilter : (b.openToken :: (parts.flatMap Prod.fst ++ [b.closeToken])).filter
        Token.isBracket =
          b.openToken :: ((parts.flatMap Prod.fst).filter Token.isBracket ++ [b.closeToken]) := by
      rw [List.filter_cons_of_pos rfl, List.filter_append]
      rfl
    rw [hfilter]
    exact .nest b hdyck .nil

/-- Lexemes spell data exactly when their brackets form a balanced word and every leaf can be
    decoded. -/
theorem spelled_iff {ts : List Token} (hlexemes : ∀ t ∈ ts, t.IsLexeme) :
    Spelled ts ↔ Balanced ts := by
  constructor
  · rintro ⟨parts, rfl, hparts⟩
    exact Balanced.flatMap fun p hp => balanced_of_spells (hparts p hp)
  · rintro ⟨hdyck, hdecodes⟩
    exact spelled_of_dyck hdyck rfl hlexemes hdecodes

end MiniLisp
