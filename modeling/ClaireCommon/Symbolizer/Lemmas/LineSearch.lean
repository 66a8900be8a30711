import ClaireCommon.Symbolizer.Lemmas.Step

/-!
This module contains the search of `LineNumberVM::FindAddress`: the rows it gets from `Next` are those
of the program, and among them it finds the row of the address.
-/

namespace Claire
namespace Dwarf
namespace LineNumberVM

open Traced

variable {env : Env} {vm : LineNumberVM} {header : LineHeader}

theorem reset_eq_start (hvm : vm.Interprets env header) : reset vm = header.start := by
  unfold reset LineHeader.start
  rw [hvm.defaultIsStmt]

theorem execute_endSequence (regs : Registers) {op : Op} (h : stepResult op ≠ .end)
    : (header.execute regs op).endSequence = regs.endSequence := by
  cases op <;> first | rfl | contradiction

theorem eq_endSequence_of_stepResult {op : Op} (h : stepResult op = .end) : op = .endSequence := by
  cases op <;> first | rfl | contradiction

theorem rows_of_commit (regs : Registers) {op : Op} (ops : List Op) (h : stepResult op = .commit)
    : header.rows regs (op :: ops)
        = header.execute regs op :: header.rows (stepRegisters header regs op) ops := by
  cases op <;> first | rfl | contradiction

theorem rows_of_continue (regs : Registers) {op : Op} (ops : List Op) (h : stepResult op = .continue)
    : header.rows regs (op :: ops) = header.rows (stepRegisters header regs op) ops := by
  cases op <;> first | rfl | contradiction

theorem stepRegisters_of_commit (regs : Registers) {op : Op} (h : stepResult op = .commit)
    : stepRegisters header regs op = LineHeader.afterRow (header.execute regs op) := by
  cases op <;> first | rfl | contradiction

theorem stepRegisters_of_continue (regs : Registers) {op : Op} (h : stepResult op = .continue)
    : stepRegisters header regs op = header.execute regs op := by
  cases op <;> first | rfl | contradiction

theorem nextRound_of_step {regs regs' : Registers} {program program' : StringPiece} {ret : StepResult}
    : (step env vm regs program).result = .ok (ret, regs', program')
        → (nextRound env vm (regs, program)).result = .ok (match ret with
          | .continue => .inl (regs', program')
          | .commit => .inr (true, regs', program')
          | .end => .inr (false, regs', program')) := by
  intro h
  unfold nextRound
  rw [result_bind_of_ok h]
  rfl

structure Agrees (more : Bool) (regs row : Registers) : Prop where
  more : more = !row.endSequence
  address : regs.address = row.address
  file : regs.file = row.file
  line : regs.line = row.line

-- Every call of `Next`, with registers that are reset at the end of a sequence, gives the next row.
inductive Yields (env : Env) (vm : LineNumberVM) (size : Nat)
    : Registers → Ptr → List Registers → Prop
  | nil {regs : Registers} {p : Ptr} : Yields env vm size regs p []
  | cons {regs regs' row : Registers} {p : Ptr} {rows : List Registers} {more : Bool}
      {n k : Nat} {last : Registers × StringPiece}
      (hrounds : Rounds (nextRound env vm) n (regs, ⟨p, size⟩) last)
      (hlast : (nextRound env vm last).result = .ok (.inr (more, regs', ⟨p.add k, size⟩)))
      (hn : n < k) (hk : p.offset + k ≤ (env.mapped p.block).length) (hrow : Agrees more regs' row)
      (rest : Yields env vm size (if more then regs' else reset vm) (p.add k) rows)
      : Yields env vm size regs p (row :: rows)

theorem Yields.length_le {size : Nat} {regs : Registers} {p : Ptr} {rows : List Registers}
    (h : Yields env vm size regs p rows) : rows.length ≤ (env.mapped p.block).length - p.offset := by
  induction h with
  | nil => exact Nat.zero_le _
  | cons hrounds hlast hn hk hrow rest ih =>
    simp only [Ptr.block_add, Ptr.offset_add] at ih
    rw [List.length_cons]
    omega

theorem Yields.continue {size k : Nat} {regs regs' : Registers} {p : Ptr} {rows : List Registers}
    (hround : (nextRound env vm (regs, ⟨p, size⟩)).result = .ok (.inl (regs', ⟨p.add k, size⟩)))
    (hk : 0 < k) (h : Yields env vm size regs' (p.add k) rows)
    : Yields env vm size regs p rows := by
  cases h with
  | nil => exact Yields.nil
  | cons hrounds hlast hn hk' hrow rest =>
    rw [Ptr.add_add] at hlast rest
    simp only [Ptr.block_add, Ptr.offset_add] at hk'
    exact Yields.cons (Rounds.head hround hrounds) hlast (by omega) (by omega) hrow rest

theorem Op.Encodes.length_pos {op : Op} {bytes : List UInt8} (h : op.Encodes header bytes)
    : 0 < bytes.length := by
  cases h <;> simp

theorem yields_of_encodesAll (hvm : vm.Interprets env header) (hrange : header.lineRange ≠ 0)
    {ops : List Op} {bytes : List UInt8} (hops : Op.EncodesAll header ops bytes) {regs : Registers}
    {p : Ptr} {size : Nat} (hregs : regs.endSequence = false) (hbytes : env.Holds p bytes)
    (hsize : bytes.length < size)
    : Yields env vm size regs p (header.rows regs ops) := by
  induction hops generalizing regs p with
  | nil => exact Yields.nil
  | @cons op ops first bytes hop hops ih =>
    have ⟨hfirst, hrest⟩ := Env.holds_append.mp hbytes
    have hpos := Op.Encodes.length_pos hop
    rw [List.length_append] at hsize
    have hlt : first.length < size := by omega
    have hround := nextRound_of_step (step_of_encodes hvm hrange regs hop hfirst hlt)
    have hend := hfirst.end_le (List.length_pos_iff.mp hpos)
    cases hret : stepResult op with
    | «continue» =>
      rw [hret] at hround
      rw [rows_of_continue regs ops hret]
      apply Yields.continue hround hpos
      apply ih
      . rw [stepRegisters_of_continue regs hret, execute_endSequence regs (by simp [hret]), hregs]
      . exact hrest
      . omega
    | commit =>
      rw [hret] at hround
      rw [rows_of_commit regs ops hret]
      have hsame := @execute_endSequence header regs op (by simp [hret])
      apply Yields.cons (Rounds.refl _) hround hpos hend
      . rw [stepRegisters_of_commit regs hret]
        refine ⟨?_, rfl, rfl, rfl⟩
        rw [hsame, hregs]
        rfl
      . apply ih
        . rw [if_pos rfl, stepRegisters_of_commit regs hret]
          exact hsame.trans hregs
        . exact hrest
        . omega
    | «end» =>
      have heq := eq_endSequence_of_stepResult hret
      subst heq
      apply Yields.cons (Rounds.refl _) hround hpos hend
      . exact ⟨rfl, rfl, rfl, rfl⟩
      . rw [if_neg (by simp), reset_eq_start hvm]
        apply ih
        . rfl
        . exact hrest
        . omega

-- The file and line that `FindAddress` remembers when it passes the address
def searchRows (target : Nat) : SearchState → Nat → Nat → List Registers → Option (Nat × Nat)
  | _, _, _, [] => none
  | state, prevFile, prevLine, row :: rows =>
    let state := enterSequence state row.endSequence row.address target
    if state = .lowSeq ∧ row.address > target then
      some (prevFile, prevLine)
    else
      let (prevFile, prevLine) :=
        if state = .lowSeq then (row.file, row.line) else (prevFile, prevLine)
      searchRows target (if row.endSequence then .start else state) prevFile prevLine rows

theorem next_of_rounds {regs regs' : Registers} {p : Ptr} {more : Bool} {size n k : Nat}
    {last : Registers × StringPiece}
    (hrounds : Rounds (nextRound env vm) n (regs, ⟨p, size⟩) last)
    (hlast : (nextRound env vm last).result = .ok (.inr (more, regs', ⟨p.add k, size⟩)))
    (hn : n < k) (hk : p.offset + k ≤ (env.mapped p.block).length)
    : (next env vm regs ⟨p, size⟩).result = .ok (more, regs', ⟨p.add k, size⟩) := by
  unfold next
  apply hrounds.loop_leave hlast
  unfold rounds
  dsimp only
  omega

theorem loop_findAddressRound_of_yields {size : Nat} {regs : Registers} {p : Ptr}
    {rows : List Registers} (h : Yields env vm size regs p rows) (hsize : 0 < size)
    {target fuel file line prevFile prevLine : Nat} {state : SearchState}
    (hsearch : searchRows target state prevFile prevLine rows = some (file, line))
    (hfuel : rows.length ≤ fuel)
    : (loop .stuck (findAddressRound env vm target) fuel
          ⟨state, regs, prevFile, prevLine, ⟨p, size⟩⟩).result
        = (found env vm file line).result := by
  induction h generalizing fuel state prevFile prevLine with
  | nil => contradiction
  | @cons regs regs' row p rows more n k last hrounds hlast hn hk hrow rest ih =>
    rw [List.length_cons] at hfuel
    have hfuel' : fuel = (fuel - 1) + 1 := by omega
    have hnext := next_of_rounds hrounds hlast hn hk
    have hmore : (!more) = row.endSequence := by rw [hrow.more, Bool.not_not]
    rw [hfuel']
    unfold searchRows at hsearch
    dsimp only at hsearch
    have hround : (findAddressRound env vm target ⟨state, regs, prevFile, prevLine, ⟨p, size⟩⟩).result
        = (if enterSequence state row.endSequence row.address target = .lowSeq
            ∧ row.address > target then do
          let result ← found env vm prevFile prevLine
          return .inr result
        else
          let (prevFile, prevLine) :=
            if enterSequence state row.endSequence row.address target = .lowSeq then
              (row.file, row.line)
            else
              (prevFile, prevLine)
          return .inl {
            state := if row.endSequence then .start
              else enterSequence state row.endSequence row.address target
            regs := if row.endSequence then reset vm else regs'
            prevFile := prevFile
            prevLine := prevLine
            program := ⟨p.add k, size⟩ } : Reader (Search ⊕ Found)).result := by
      unfold findAddressRound
      rw [if_neg (by simp [StringPiece.isEmpty]; omega), result_bind_of_ok hnext]
      dsimp only
      rw [hmore, hrow.address, hrow.file, hrow.line]
    have hregs : (if row.endSequence then reset vm else regs') = if more then regs' else reset vm := by
      rw [← hmore]
      cases more <;> rfl
    rw [hregs] at hround
    split at hsearch
    next hfound =>
      injection hsearch with hsearch
      injection hsearch with hfile hline
      rw [if_pos hfound] at hround
      rw [← hfile, ← hline]
      apply loop_last _ hround
    next hmissed =>
      rw [if_neg hmissed] at hround
      by_cases hlow : enterSequence state row.endSequence row.address target = .lowSeq
      . simp only [if_pos hlow] at hround hsearch
        rw [loop_continue _ hround]
        exact ih hsearch (by omega)
      . simp only [if_neg hlow] at hround hsearch
        rw [loop_continue _ hround]
        exact ih hsearch (by omega)

inductive IsSequence : List Registers → Prop
  | last {row : Registers} (h : row.endSequence = true) : IsSequence [row]
  | cons {row : Registers} {rows : List Registers} (h : row.endSequence = false)
      (rest : IsSequence rows) : IsSequence (row :: rows)

theorem isSequence_rows {regs : Registers} {body : List Op} (hregs : regs.endSequence = false)
    (hbody : .endSequence ∉ body) : IsSequence (header.rows regs (body ++ [Op.endSequence])) := by
  induction body generalizing regs with
  | nil => exact IsSequence.last rfl
  | cons op body ih =>
    rw [List.mem_cons, not_or] at hbody
    have hnext := @execute_endSequence header regs op
      (fun h => hbody.1 (eq_endSequence_of_stepResult h).symm)
    rw [List.cons_append]
    cases hret : stepResult op with
    | «continue» =>
      rw [rows_of_continue _ _ hret, stepRegisters_of_continue regs hret]
      exact ih (hnext.trans hregs) hbody.2
    | commit =>
      rw [rows_of_commit _ _ hret, stepRegisters_of_commit regs hret]
      apply IsSequence.cons (hnext.trans hregs)
      exact ih (hnext.trans hregs) hbody.2
    | «end» => exact absurd (eq_endSequence_of_stepResult hret).symm hbody.1

theorem rows_append {regs : Registers} {body ops : List Op} (hbody : .endSequence ∉ body)
    : header.rows regs (body ++ .endSequence :: ops)
        = header.rows regs (body ++ [Op.endSequence]) ++ header.rows header.start ops := by
  induction body generalizing regs with
  | nil => rfl
  | cons op body ih =>
    rw [List.mem_cons, not_or] at hbody
    rw [List.cons_append, List.cons_append]
    cases hret : stepResult op with
    | «continue» =>
      rw [rows_of_continue _ _ hret, rows_of_continue _ _ hret]
      exact ih hbody.2
    | commit =>
      rw [rows_of_commit _ _ hret, rows_of_commit _ _ hret, List.cons_append]
      rw [ih hbody.2]
    | «end» => exact absurd (eq_endSequence_of_stepResult hret).symm hbody.1

theorem rows_flatMap (sequences : List LineSequence)
    : header.rows header.start (sequences.flatMap LineSequence.ops)
        = (sequences.map header.sequenceRows).flatten := by
  induction sequences with
  | nil => rfl
  | cons sequence sequences ih =>
    rw [List.flatMap_cons, List.map_cons, List.flatten_cons, ← ih]
    unfold LineHeader.sequenceRows LineSequence.ops
    rw [List.append_assoc, List.singleton_append, rows_append sequence.unended]

variable {target prevFile prevLine : Nat} {row : Registers} {rows rest : List Registers}

theorem searchRows_start_end (h : row.endSequence = true)
    : searchRows target .start prevFile prevLine (row :: rows)
        = searchRows target .start prevFile prevLine rows := by
  simp [searchRows, enterSequence, h]

theorem searchRows_start_le (h : row.endSequence = false) (hrow : row.address ≤ target)
    : searchRows target .start prevFile prevLine (row :: rows)
        = searchRows target .lowSeq row.file row.line rows := by
  simp [searchRows, enterSequence, h, hrow]

theorem searchRows_start_gt (h : row.endSequence = false) (hrow : target < row.address)
    : searchRows target .start prevFile prevLine (row :: rows)
        = searchRows target .highSeq prevFile prevLine rows := by
  simp [searchRows, enterSequence, h, Nat.not_le.mpr hrow]

theorem searchRows_lowSeq_le (hrow : row.address ≤ target)
    : searchRows target .lowSeq prevFile prevLine (row :: rows)
        = searchRows target (if row.endSequence then .start else .lowSeq) row.file row.line rows := by
  simp [searchRows, enterSequence, Nat.not_lt.mpr hrow]

theorem searchRows_lowSeq_gt (hrow : target < row.address)
    : searchRows target .lowSeq prevFile prevLine (row :: rows) = some (prevFile, prevLine) := by
  simp [searchRows, enterSequence, hrow]

theorem searchRows_highSeq_cons
    : searchRows target .highSeq prevFile prevLine (row :: rows)
        = searchRows target (if row.endSequence then .start else .highSeq) prevFile prevLine rows := by
  simp [searchRows, enterSequence]

theorem searchRows_highSeq (h : IsSequence rows)
    : searchRows target .highSeq prevFile prevLine (rows ++ rest)
        = searchRows target .start prevFile prevLine rest := by
  induction h with
  | last h =>
    rw [List.singleton_append, searchRows_highSeq_cons, if_pos h]
  | cons h rows ih =>
    rw [List.cons_append, searchRows_highSeq_cons, if_neg (by simp [h]), ih]

theorem searchRows_lowSeq_missed (h : IsSequence rows) (hmissed : ∀ row ∈ rows, row.address ≤ target)
    : ∃ prevFile' prevLine', searchRows target .lowSeq prevFile prevLine (rows ++ rest)
        = searchRows target .start prevFile' prevLine' rest := by
  induction h generalizing prevFile prevLine with
  | @last row h =>
    refine ⟨row.file, row.line, ?_⟩
    rw [List.singleton_append, searchRows_lowSeq_le (hmissed row List.mem_cons_self), if_pos h]
  | @cons row rows h rest' ih =>
    rw [List.cons_append, searchRows_lowSeq_le (hmissed row List.mem_cons_self), if_neg (by simp [h])]
    apply ih
    intro row' hrow'
    exact hmissed row' (List.mem_cons_of_mem _ hrow')

theorem getLast?_takeWhile_cons {first : Registers} (hrow : row.address ≤ target)
    (hfirst : first.address ≤ target)
    : ((row :: first :: rows).takeWhile (·.address ≤ target)).getLast?
        = ((first :: rows).takeWhile (·.address ≤ target)).getLast? := by
  rw [List.takeWhile_cons_of_pos (by simpa using hrow)]
  rw [List.takeWhile_cons_of_pos (by simpa using hfirst), List.getLast?_cons_cons]

theorem getLast?_takeWhile_last {first : Registers} (hrow : row.address ≤ target)
    (hfirst : target < first.address)
    : ((row :: first :: rows).takeWhile (·.address ≤ target)).getLast? = some row := by
  rw [List.takeWhile_cons_of_pos (by simpa using hrow)]
  rw [List.takeWhile_cons_of_neg (by simpa using hfirst), List.getLast?_singleton]

theorem searchRows_lowSeq_found (h : IsSequence rows) (hrow : row.address ≤ target)
    (hfound : ∃ row ∈ rows, target < row.address)
    : ∃ last, ((row :: rows).takeWhile (·.address ≤ target)).getLast? = some last
        ∧ searchRows target .lowSeq row.file row.line (rows ++ rest) = some (last.file, last.line) := by
  induction h generalizing row with
  | @last first h =>
    have hfirst : target < first.address := by simpa using hfound
    exact ⟨row, getLast?_takeWhile_last hrow hfirst, searchRows_lowSeq_gt hfirst⟩
  | @cons first rows h rest' ih =>
    rw [List.cons_append]
    by_cases hfirst : target < first.address
    . exact ⟨row, getLast?_takeWhile_last hrow hfirst, searchRows_lowSeq_gt hfirst⟩
    . rw [getLast?_takeWhile_cons hrow (by omega), searchRows_lowSeq_le (by omega), if_neg (by simp [h])]
      apply ih (by omega)
      have ⟨later, hlater, hgt⟩ := hfound
      cases hlater with
      | head => contradiction
      | tail _ hlater => exact ⟨later, hlater, hgt⟩

theorem searchRows_of_not_covered (h : IsSequence rows) (hcovered' : ¬IsCovered target rows)
    : ∃ prevFile' prevLine', searchRows target .start prevFile prevLine (rows ++ rest)
        = searchRows target .start prevFile' prevLine' rest := by
  cases h with
  | last h => exact ⟨prevFile, prevLine, searchRows_start_end h⟩
  | @cons first rows h rest' =>
    rw [List.cons_append]
    by_cases hfirst : first.address ≤ target
    . rw [searchRows_start_le h hfirst]
      apply searchRows_lowSeq_missed rest'
      intro row hrow
      by_contra hgt
      exact hcovered' ⟨hfirst, row, hrow, by omega⟩
    . rw [searchRows_start_gt h (by omega), searchRows_highSeq rest']
      exact ⟨_, _, rfl⟩

theorem searchRows_of_covered (h : IsSequence rows) (hcovered' : IsCovered target rows)
    : ∃ last, (rows.takeWhile (·.address ≤ target)).getLast? = some last
        ∧ searchRows target .start prevFile prevLine (rows ++ rest) = some (last.file, last.line) := by
  cases h with
  | last h =>
    have ⟨_, row, hrow, _⟩ := hcovered'
    contradiction
  | @cons first rows h rest' =>
    have ⟨hfirst, hlater⟩ := hcovered'
    rw [List.cons_append, searchRows_start_le h hfirst]
    exact searchRows_lowSeq_found rest' hfirst hlater

theorem searchRows_of_lookup {sequences : List LineSequence}
    (hcovered : ∃ sequence ∈ sequences, IsCovered target (header.sequenceRows sequence))
    : ∃ row, header.lookup sequences target = some row
        ∧ searchRows target .start prevFile prevLine
            (header.rows header.start (sequences.flatMap LineSequence.ops))
            = some (row.file, row.line) := by
  rw [rows_flatMap]
  induction sequences generalizing prevFile prevLine with
  | nil => simp at hcovered
  | cons sequence sequences ih =>
    have hsequence : IsSequence (header.sequenceRows sequence) :=
      isSequence_rows rfl sequence.unended
    rw [List.map_cons, List.flatten_cons]
    unfold LineHeader.lookup
    rw [List.map_cons]
    by_cases hcovered' : IsCovered target (header.sequenceRows sequence)
    . rw [List.find?_cons_of_pos (by simpa using hcovered')]
      exact searchRows_of_covered hsequence hcovered'
    . rw [List.find?_cons_of_neg (by simpa using hcovered')]
      have ⟨prevFile', prevLine', hsearch⟩ := @searchRows_of_not_covered target prevFile prevLine _
        (sequences.map header.sequenceRows).flatten hsequence hcovered'
      rw [hsearch]
      apply ih
      have ⟨later, hlater, hlaterCovered⟩ := hcovered
      cases hlater with
      | head => contradiction
      | tail _ hlater => exact ⟨later, hlater, hlaterCovered⟩

end LineNumberVM
end Dwarf
end Claire
