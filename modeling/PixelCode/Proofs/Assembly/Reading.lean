import Mathlib.Data.List.Forall2
import PixelCode.Proofs.Assembly.Line
import PixelCode.Proofs.Except

/-! The lines that assemble, by what their words stand for. -/
namespace PixelCode

private theorem Opcode.mnemonic_of_ofMnemonic? {name : String} {op : Opcode}
    (h : ofMnemonic? name = some op) : op.mnemonic = name := by
  simpa using List.find?_some h

namespace Assembly

def StandsFor (word : List Char) (token : Token) : Prop := Token.ofWord? word = some token

/-- A word that stands for a name is the name in upper case. -/
theorem StandsFor.upper_eq {word : List Char} {name : String} (h : StandsFor word (.name name)) :
    Text.upper word = name.toList := by
  unfold StandsFor Token.ofWord? at h
  split at h
  next => simp at h
  next => simp at h
  next => simp at h
  next =>
    split at h
    next => simp at h
    next =>
      cases h
      exact String.toList_ofList.symm

private theorem tokens_eq_ok_iff {ws : List (List Char)} {ts : List Token} :
    tokens ws = .ok ts ↔ List.Forall₂ StandsFor ws ts := by
  induction ws generalizing ts with
  | nil =>
    rw [List.forall₂_nil_left_iff, tokens]
    exact ⟨fun h => by cases h; rfl, fun h => by rw [h]⟩
  | cons w ws ih =>
    rw [List.forall₂_cons_left_iff, tokens]
    cases hw : Token.ofWord? w with
    | none =>
      constructor
      · intro h
        cases h
      · rintro ⟨t, ts', ht, -, rfl⟩
        cases hw.symm.trans ht
    | some t =>
      refine map_eq_ok_iff.trans ⟨?_, ?_⟩
      · rintro ⟨ts', hts, rfl⟩
        exact ⟨t, ts', hw, ih.1 hts, rfl⟩
      · rintro ⟨t', ts', ht, hts, rfl⟩
        cases hw.symm.trans ht
        exact ⟨ts', ih.2 hts, rfl⟩

namespace Statement

theorem byteOf_eq_ok_iff {n : Nat} {b : UInt8} : byteOf n = .ok b ↔ n = b.toNat := by
  constructor
  · intro h
    unfold byteOf at h
    split at h
    next hlt =>
      cases h
      rw [UInt8.toNat_ofNat_of_lt' hlt]
    next => cases h
  · rintro rfl
    exact byteOf_toNat b

private theorem eq_nil_of_endOfLine {ts : List Token} (h : endOfLine ts = .ok ()) : ts = [] := by
  cases ts with
  | nil => rfl
  | cons t ts => cases h

private theorem soleByte_eq_ok_iff {name : String} {ts : List Token} {b : UInt8} :
    soleByte name ts = .ok b ↔ ts = [.number b.toNat] := by
  constructor
  · intro h
    match ts with
    | [] => cases h
    | .name s :: rest => cases h
    | .number n :: rest =>
      rw [soleByte] at h
      obtain ⟨b', hb, h⟩ := bind_eq_ok_iff.1 h
      obtain ⟨_, hend, h⟩ := bind_eq_ok_iff.1 h
      cases h
      rw [byteOf_eq_ok_iff.1 hb, eq_nil_of_endOfLine hend]
  · rintro rfl
    exact soleByte_number name b

private theorem typeBytes_eq_ok_iff {ts : List Token} {types : List UInt8} :
    typeBytes ts = .ok types ↔ List.Forall₂ (fun t b => typeByte t = .ok b) ts types := by
  induction ts generalizing types with
  | nil =>
    rw [List.forall₂_nil_left_iff, typeBytes]
    exact ⟨fun h => by cases h; rfl, fun h => by rw [h]⟩
  | cons t ts ih =>
    rw [List.forall₂_cons_left_iff, typeBytes]
    constructor
    · intro h
      obtain ⟨b, hb, h⟩ := bind_eq_ok_iff.1 h
      obtain ⟨bs, hbs, h⟩ := bind_eq_ok_iff.1 h
      cases h
      exact ⟨b, bs, hb, ih.1 hbs, rfl⟩
    · rintro ⟨b, bs, hb, hbs, rfl⟩
      exact bind_eq_ok_iff.2 ⟨b, hb, bind_eq_ok_iff.2 ⟨bs, ih.2 hbs, rfl⟩⟩

inductive Reads : List Token → Option Statement → Prop where
  | blank : Reads [] none
  | raw (b : UInt8) : Reads [.name byteDirective, .number b.toNat] (some (.raw b))
  | bare {op : Opcode} : op.operands = 0 → Reads [.name op.mnemonic] (some (.instruction op []))
  | operand {op : Opcode} (b : UInt8) : op.operands ≠ 0 → op ≠ .clause →
    Reads [.name op.mnemonic, .number b.toNat] (some (.instruction op [b]))
  | clause {ts : List Token} {types : List UInt8} : ts.length ≤ 255 →
    List.Forall₂ (fun t b => typeByte t = .ok b) ts types →
    Reads (.name Opcode.clause.mnemonic :: ts) (some (.instruction .clause types))

private theorem ofTokens_name (op : Opcode) (ts : List Token) :
    ofTokens (.name op.mnemonic :: ts) = (ofArguments op ts).map some := by
  have hname : op.mnemonic ≠ byteDirective := by cases op <;> decide
  rw [ofTokens, if_neg hname, Opcode.ofMnemonic?_mnemonic]

private theorem ofArguments_of_ne {op : Opcode} (hop : op ≠ .clause) (ts : List Token) :
    ofArguments op ts =
      if op.operands = 0 then (endOfLine ts).map fun _ => instruction op []
      else (soleByte op.mnemonic ts).map fun b => instruction op [b] := by
  rw [ofArguments]
  exact hop

private theorem reads_of_ofArguments {op : Opcode} {ts : List Token} {s : Statement}
    (h : ofArguments op ts = .ok s) : Reads (.name op.mnemonic :: ts) (some s) := by
  by_cases hop : op = .clause
  · subst hop
    rw [ofArguments] at h
    split at h
    next => cases h
    next hlength =>
      obtain ⟨types, htypes, rfl⟩ := map_eq_ok_iff.1 h
      exact .clause (Nat.not_lt.1 hlength) (typeBytes_eq_ok_iff.1 htypes)
  · rw [ofArguments_of_ne hop] at h
    split at h
    next hzero =>
      obtain ⟨_, hend, rfl⟩ := map_eq_ok_iff.1 h
      rw [eq_nil_of_endOfLine hend]
      exact .bare hzero
    next hsome =>
      obtain ⟨b, hb, rfl⟩ := map_eq_ok_iff.1 h
      rw [soleByte_eq_ok_iff.1 hb]
      exact .operand b hsome hop

/-- A line is read exactly when its tokens make a statement, or there are none. -/
theorem ofTokens_eq_ok_iff {ts : List Token} {s : Option Statement} :
    ofTokens ts = .ok s ↔ Reads ts s := by
  constructor
  · intro h
    match ts with
    | [] => cases h; exact .blank
    | .number n :: _ => cases h
    | .name name :: ts =>
      rw [ofTokens] at h
      split at h
      next hname =>
        obtain ⟨b, hb, rfl⟩ := map_eq_ok_iff.1 h
        rw [hname, soleByte_eq_ok_iff.1 hb]
        exact .raw b
      next =>
        split at h
        next => cases h
        next op hop =>
          obtain ⟨s, hs, rfl⟩ := map_eq_ok_iff.1 h
          rw [← Opcode.mnemonic_of_ofMnemonic? hop]
          exact reads_of_ofArguments hs
  · intro h
    cases h with
    | blank => rfl
    | raw b => exact ofTokens_lineTokens (s := .raw b) trivial
    | @bare op hop =>
      have hclause : op ≠ .clause := by rintro rfl; cases hop
      rw [ofTokens_name, ofArguments_of_ne hclause, if_pos hop]
      rfl
    | operand b hop hclause =>
      rw [ofTokens_name, ofArguments_of_ne hclause, if_neg hop, soleByte_number]
      rfl
    | clause hlength htypes =>
      rw [ofTokens_name, ofArguments, if_neg (Nat.not_lt.2 hlength), typeBytes_eq_ok_iff.2 htypes]
      rfl

theorem encode_of_ne {op : Opcode} (hop : op ≠ .clause) (operands : List UInt8) :
    (instruction op operands).encode = op.byte :: operands := by
  rw [encode]
  exact hop

theorem complete_iff_of_ne {op : Opcode} (hop : op ≠ .clause) {operands : List UInt8} :
    (instruction op operands).Complete ↔ operands.length = op.operands := by
  cases op with
  | clause => exact absurd rfl hop
  | _ => rfl

/-- What is read has the operands that it needs. -/
theorem Reads.complete {ts : List Token} {s : Statement} (h : Reads ts (some s)) : s.Complete := by
  cases h with
  | raw b => trivial
  | bare hop =>
    refine (complete_iff_of_ne ?_).2 hop.symm
    rintro rfl
    cases hop
  | @operand op b hop hclause =>
    have hwidth : op.operands ≤ 1 := by cases op <;> decide
    exact (complete_iff_of_ne hclause).2 (Nat.le_antisymm (Nat.pos_of_ne_zero hop) hwidth)
  | clause hlength htypes => exact Nat.le_trans (Nat.le_of_eq htypes.length_eq.symm) hlength

end Statement

/-- A line assembles exactly when its words stand for tokens that are read, and gives the bytes of
what is read. -/
theorem lineBytes_eq_ok_iff {line : List Char} {bytes : List UInt8} :
    lineBytes line = .ok bytes ↔
      ∃ ts s, List.Forall₂ StandsFor (Text.words (code line)) ts ∧ Statement.Reads ts s ∧
        (s.map Statement.encode).getD [] = bytes := by
  rw [lineBytes, map_eq_ok_iff]
  constructor
  · rintro ⟨s, hs, rfl⟩
    obtain ⟨ts, hts, hread⟩ := bind_eq_ok_iff.1 hs
    exact ⟨ts, s, tokens_eq_ok_iff.1 hts, Statement.ofTokens_eq_ok_iff.1 hread, rfl⟩
  · rintro ⟨ts, s, hts, hread, rfl⟩
    refine ⟨s, bind_eq_ok_iff.2 ⟨ts, tokens_eq_ok_iff.2 hts, ?_⟩, rfl⟩
    exact Statement.ofTokens_eq_ok_iff.2 hread

private theorem linesBytes_eq_ok_iff {number : Nat} {lines : List (List Char)}
    {bytes : List UInt8} :
    linesBytes number lines = .ok bytes ↔
      ∃ encodings, List.Forall₂ (fun line e => lineBytes line = .ok e) lines encodings ∧
        encodings.flatten = bytes := by
  induction lines generalizing number bytes with
  | nil => simp [linesBytes]
  | cons line lines ih =>
    rw [linesBytes]
    cases hline : lineBytes line with
    | error cause =>
      constructor
      · intro h
        cases h
      · rintro ⟨encodings, hlines, -⟩
        obtain ⟨e, _, he, -, -⟩ := List.forall₂_cons_left_iff.1 hlines
        cases hline.symm.trans he
    | ok e =>
      refine map_eq_ok_iff.trans ⟨?_, ?_⟩
      · rintro ⟨rest, hrest, rfl⟩
        obtain ⟨encodings, hlines, rfl⟩ := ih.1 hrest
        exact ⟨e :: encodings, .cons hline hlines, rfl⟩
      · rintro ⟨_, hlines, rfl⟩
        obtain ⟨e', encodings, he, hrest, rfl⟩ := List.forall₂_cons_left_iff.1 hlines
        cases hline.symm.trans he
        exact ⟨encodings.flatten, ih.2 ⟨encodings, hrest, rfl⟩, rfl⟩

/-- A text assembles exactly when its lines do, to their bytes in order. -/
theorem assemble_eq_ok_iff_lineBytes {text : String} {p : Program} :
    assemble text = .ok p ↔
      ∃ encodings,
        List.Forall₂ (fun line e => lineBytes line = .ok e) (Text.lines text.toList) encodings ∧
        p = .ofList encodings.flatten := by
  rw [assemble, map_eq_ok_iff]
  constructor
  · rintro ⟨bytes, hbytes, rfl⟩
    obtain ⟨encodings, hlines, rfl⟩ := linesBytes_eq_ok_iff.1 hbytes
    exact ⟨encodings, hlines, rfl⟩
  · rintro ⟨encodings, hlines, rfl⟩
    exact ⟨encodings.flatten, linesBytes_eq_ok_iff.2 ⟨encodings, hlines, rfl⟩, rfl⟩

/-- A text without line feeds assembles as the one line it is. -/
theorem assemble_line {text : String} (h : '\n' ∉ text.toList) :
    assemble text = ((lineBytes text.toList).mapError (Error.mk 1)).map .ofList := by
  rw [assemble]
  by_cases hempty : text.toList = []
  · -- an empty text has no line, and an empty line has no bytes
    rw [hempty]
    rfl
  · rw [Text.lines_of_no_feed h hempty, linesBytes]
    cases lineBytes text.toList with
    | error cause => rfl
    | ok bytes =>
      show Except.ok (Program.ofList (bytes ++ [])) = Except.ok (Program.ofList bytes)
      rw [List.append_nil]

theorem assemble_line_iff {text : String} {p : Program} (h : '\n' ∉ text.toList) :
    assemble text = .ok p ↔ lineBytes text.toList = .ok p.toList := by
  rw [assemble_line h, map_eq_ok_iff]
  constructor
  · rintro ⟨bytes, hbytes, rfl⟩
    exact mapError_eq_ok_iff.1 hbytes
  · intro hbytes
    exact ⟨p.toList, mapError_eq_ok_iff.2 hbytes, rfl⟩

end Assembly
end PixelCode
