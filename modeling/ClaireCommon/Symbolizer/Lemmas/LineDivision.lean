import ClaireCommon.Symbolizer.Lemmas.FindAddress
import ClaireCommon.Symbolizer.Lemmas.Undivided

/-!
This module contains when `LineNumberVM` divides by zero: `Init` does not check `line_range`, by which
`Step` divides for special opcodes and for `DW_LNS_const_add_pc`.
-/

namespace Claire
namespace Dwarf

open Traced

def Ptr.Ahead (p q : Ptr) : Prop := ∃ n, q = p.add n

theorem Ptr.Ahead.refl (p : Ptr) : Ptr.Ahead p p := ⟨0, rfl⟩

theorem Ptr.Ahead.trans {p q r : Ptr} (h : Ptr.Ahead p q) (h' : Ptr.Ahead q r) : Ptr.Ahead p r := by
  have ⟨n, hn⟩ := h
  have ⟨m, hm⟩ := h'
  exact ⟨n + m, by rw [hm, hn, Ptr.add_add]⟩

namespace LineNumberVM

variable {env : Env} {vm : LineNumberVM} {header : LineHeader} {α β : Type}

-- What `x` reads lies at `p` or behind it, `rest` is what it leaves.
structure Advances (p : Ptr) (rest : α → StringPiece) (x : Reader α) : Prop where
  undivided : Undivided x
  ahead : ∀ a, x.result = .ok a → Ptr.Ahead p (rest a).data

variable {p : Ptr} {rest : α → StringPiece} {rest' : β → StringPiece}

theorem advances_pure {a : α} (h : Ptr.Ahead p (rest a).data) : Advances p rest (pure a) where
  undivided := undivided_pure a
  ahead := by
    intro a' ha'
    injection ha' with ha'
    rw [← ha']
    exact h

theorem Advances.bind {x : Reader α} {f : α → Reader β} (hx : Advances p rest x)
    (hf : ∀ a, Advances (rest a).data rest' (f a)) : Advances p rest' (x >>= f) where
  undivided := undivided_bind hx.undivided fun a => (hf a).undivided
  ahead := by
    intro b hb
    rw [bind_eq_ok] at hb
    have ⟨a, ha, hb⟩ := hb
    exact (hx.ahead a ha).trans ((hf a).ahead b hb)

theorem advances_of_undivided {x : Reader α} {f : α → Reader β} (hx : Undivided x)
    (hf : ∀ a, Advances p rest' (f a)) : Advances p rest' (x >>= f) where
  undivided := undivided_bind hx fun a => (hf a).undivided
  ahead := by
    intro b hb
    rw [bind_eq_ok] at hb
    have ⟨a, _, hb⟩ := hb
    exact (hf a).ahead b hb

theorem advances_of_ok {x : Reader α} {f : α → Reader β} {a : α} (hx : x.result = .ok a)
    (hf : Advances p rest' (f a)) : Advances p rest' (x >>= f) := by
  have hresult := result_bind_of_ok hx f
  constructor
  . intro h
    exact hf.undivided (hresult.symm.trans h)
  . intro b hb
    exact hf.ahead b (hresult.symm.trans hb)

theorem advances_of_error {x : Reader α} {f : α → Reader β} {e : Stop} (hx : x.result = .error e)
    (hundivided : Undivided x) : Advances p rest' (x >>= f) := by
  have hresult := (bind_of_error hx f).1
  constructor
  . intro h
    rw [hresult] at h
    injection h with h
    rw [h] at hx
    exact hundivided hx
  . intro b hb
    rw [hresult] at hb
    contradiction

theorem advances_ite {condition : Prop} [Decidable condition] {x y : Reader α}
    (hx : Advances p rest x) (hy : Advances p rest y)
    : Advances p rest (if condition then x else y) := by
  split
  next => exact hx
  next => exact hy

theorem advances_read (n : Nat) (s : StringPiece) : Advances s.data Prod.snd (read env n s) where
  undivided := undivided_read n s
  ahead := by
    intro (value, s') h
    have ⟨_, _, _, _, _, _, hs⟩ := read_eq_ok.mp h
    exact ⟨n, congrArg StringPiece.data hs⟩

theorem advances_readULEB (s : StringPiece) : Advances s.data Prod.snd (readULEB env s) where
  undivided := undivided_readULEB s
  ahead := by
    intro (value, s') h
    have ⟨_, _, bytes, _, _, _, hs⟩ := readULEB_eq_ok.mp h
    exact ⟨bytes.length, congrArg StringPiece.data hs⟩

theorem advances_readSLEB (s : StringPiece) : Advances s.data Prod.snd (readSLEB env s) where
  undivided := undivided_readSLEB s
  ahead := by
    intro (value, s') h
    unfold readSLEB at h
    rw [bind_eq_ok] at h
    have ⟨(_, u), hfull, h⟩ := h
    have ⟨_, _, bytes, _, _, _, hu⟩ := readULEBFull_eq_ok.mp hfull
    injection h with h
    injection h with _ hs
    exact ⟨bytes.length, by rw [← hs, hu]⟩

theorem advances_advance (s : StringPiece) (n : Nat) : Advances s.data id (s.advance env n) where
  undivided := StringPiece.undivided_advance s n
  ahead := by
    intro s' h
    exact ⟨n, congrArg StringPiece.data (StringPiece.advance_eq_ok.mp h).2⟩

theorem advances_skipArguments (program : StringPiece) (argCount : Nat)
    : Advances program.data id (skipArguments env program argCount) := by
  induction argCount generalizing program with
  | zero => exact advances_pure (Ptr.Ahead.refl _)
  | succ argCount ih => exact (advances_readULEB program).bind fun _ => ih _

def Stepped.program (stepped : Stepped) : StringPiece := stepped.2.2

theorem advances_stepped (ret : StepResult) (regs : Registers) (program : StringPiece)
    : Advances program.data Stepped.program (pure (ret, regs, program) : Reader Stepped) :=
  advances_pure (Ptr.Ahead.refl _)

theorem advances_unrecognizedOpcode (regs : Registers) (opcode : Nat) (program : StringPiece)
    : Advances program.data Stepped.program (unrecognizedOpcode env vm regs opcode program) := by
  apply advances_of_undivided (Env.undivided_peek _)
  intro argCount
  apply (advances_skipArguments program _).bind
  intro _
  apply advances_stepped

theorem advances_standardOpcode (regs : Registers) {opcode : Nat} (program : StringPiece)
    (h : opcode ≠ DW_LNS_const_add_pc)
    : Advances program.data Stepped.program (standardOpcode env vm regs opcode program) := by
  have hread := @advances_read env 2 program
  have hreadULEB := @advances_readULEB env program
  have hreadSLEB := @advances_readSLEB env program
  unfold standardOpcode
  rw [if_neg h]
  apply advances_ite (advances_stepped _ _ _)
  apply advances_ite (hreadULEB.bind fun _ => advances_stepped _ _ _)
  apply advances_ite (hreadSLEB.bind fun _ => advances_stepped _ _ _)
  apply advances_ite (hreadULEB.bind fun _ => advances_stepped _ _ _)
  apply advances_ite (hreadULEB.bind fun _ => advances_stepped _ _ _)
  apply advances_ite (advances_stepped _ _ _)
  apply advances_ite (advances_stepped _ _ _)
  apply advances_ite (hread.bind fun _ => advances_stepped _ _ _)
  apply advances_ite (advances_stepped _ _ _)
  apply advances_ite (advances_stepped _ _ _)
  apply advances_ite (hreadULEB.bind fun _ => advances_stepped _ _ _)
  apply advances_unrecognizedOpcode

theorem advances_extendedOpcode (regs : Registers) (program : StringPiece)
    : Advances program.data Stepped.program (extendedOpcode env regs program) := by
  apply (advances_readULEB program).bind
  intro (length, program)
  apply advances_of_undivided (undivided_check _)
  intro _
  apply (advances_read 1 program).bind
  intro (opcode, program)
  apply advances_ite (advances_stepped _ _ _)
  apply advances_ite ((advances_read 8 program).bind fun _ => advances_stepped _ _ _)
  apply advances_ite ((advances_readULEB program).bind fun _ => advances_stepped _ _ _)
  exact (advances_advance program _).bind fun _ => advances_stepped _ _ _

def IsDividing (header : LineHeader) (opcode : Nat) : Prop :=
  header.opcodeBase ≤ opcode ∨ opcode = DW_LNS_const_add_pc

-- The opcode at the program divides by `line_range`.
def DividesAt (env : Env) (header : LineHeader) (program : StringPiece) : Prop :=
  ∃ opcode rest, (read env 1 program).result = .ok (opcode, rest) ∧ IsDividing header opcode

theorem divide_eq_error {a b : Nat} : (divide a b).result = .error .divisionByZero ↔ b = 0 := by
  unfold divide
  split
  next h => simp [h]
  next h => simp [h]

theorem modulo_eq_error {a b : Nat} : (modulo a b).result = .error .divisionByZero ↔ b = 0 := by
  unfold modulo
  split
  next h => simp [h]
  next h => simp [h]

theorem advances_specialOpcode (hrange : vm.lineRange ≠ 0) (regs : Registers) (opcode : Nat)
    (program : StringPiece)
    : Advances program.data Stepped.program (specialOpcode vm regs opcode program) := by
  apply advances_of_undivided (mt divide_eq_error.mp hrange)
  intro _
  apply advances_of_undivided (mt modulo_eq_error.mp hrange)
  intro _
  apply advances_stepped

theorem standardOpcode_const_add_pc (regs : Registers) (program : StringPiece)
    : standardOpcode env vm regs DW_LNS_const_add_pc program = do
      let opAdvance ← divide (255 - vm.opcodeBase) vm.lineRange
      return (.continue,
        { regs with address := addUnsigned regs.address (vm.minLength * opAdvance) }, program) := rfl

theorem step_of_dividing (hvm : vm.Interprets env header) (hrange : header.lineRange = 0)
    (regs : Registers) {program : StringPiece} (h : DividesAt env header program)
    : (step env vm regs program).result = .error .divisionByZero := by
  have ⟨opcode, rest, hread, hopcode⟩ := h
  have hbase := hvm.opcodeBase
  have hdivide : ∀ a, (divide a vm.lineRange).result = .error .divisionByZero := by
    intro a
    rw [divide_eq_error, hvm.lineRange, hrange]
  unfold step
  rw [result_bind_of_ok hread]
  dsimp only
  by_cases hspecial : vm.opcodeBase ≤ opcode
  . rw [if_pos hspecial]
    exact (bind_of_error (hdivide _) _).1
  . have hconst : opcode = DW_LNS_const_add_pc := by
      cases hopcode with
      | inl h => omega
      | inr h => exact h
    rw [if_neg hspecial, hconst, if_pos (by decide), standardOpcode_const_add_pc]
    exact (bind_of_error (hdivide _) _).1

theorem advances_step (hvm : vm.Interprets env header) (regs : Registers) {program : StringPiece}
    (h : header.lineRange ≠ 0 ∨ ¬DividesAt env header program)
    : Advances (program.data.add 1) Stepped.program (step env vm regs program) := by
  unfold step
  cases hread : (read env 1 program).result with
  | error e => exact advances_of_error hread (undivided_read 1 program)
  | ok value =>
    have (opcode, rest) := value
    have ⟨_, _, _, _, _, hrest⟩ := readByte_eq_ok.mp hread
    have hdata : program.data.add 1 = rest.data := by rw [hrest]
    have hdividing : IsDividing header opcode → vm.lineRange ≠ 0 := by
      intro hopcode
      rw [hvm.lineRange]
      cases h with
      | inl h => exact h
      | inr h => exact absurd ⟨opcode, rest, hread, hopcode⟩ h
    have hbase := hvm.opcodeBase
    apply advances_of_ok hread
    rw [hdata]
    dsimp only
    split
    next hspecial =>
      apply advances_specialOpcode
      apply hdividing
      left
      omega
    next =>
      split
      next =>
        by_cases hconst : opcode = DW_LNS_const_add_pc
        . rw [hconst, standardOpcode_const_add_pc]
          apply advances_of_undivided (mt divide_eq_error.mp (hdividing (Or.inr hconst)))
          intro _
          apply advances_stepped
        . exact advances_standardOpcode regs rest hconst
      next => apply advances_extendedOpcode

theorem step_divides_iff (hvm : vm.Interprets env header) (regs : Registers) {program : StringPiece}
    : (step env vm regs program).result = .error .divisionByZero
        ↔ header.lineRange = 0 ∧ DividesAt env header program := by
  constructor
  . intro h
    by_contra hnot
    apply (advances_step hvm regs ?_).undivided h
    rw [not_and_or] at hnot
    exact hnot
  . intro ⟨hrange, hdivides⟩
    exact step_of_dividing hvm hrange regs hdivides

def bytesLeft (env : Env) (program : StringPiece) : Nat :=
  (env.mapped program.data.block).length - program.data.offset

theorem bytesLeft_of_step (hvm : vm.Interprets env header) {regs : Registers} {program : StringPiece}
    {stepped : Stepped} (h : (step env vm regs program).result = .ok stepped)
    : bytesLeft env stepped.program < bytesLeft env program := by
  have hnot : header.lineRange ≠ 0 ∨ ¬DividesAt env header program := by
    by_contra hnot
    rw [not_or, not_not, not_not] at hnot
    rw [step_of_dividing hvm hnot.1 regs hnot.2] at h
    contradiction
  have ⟨n, hahead⟩ := (advances_step hvm regs hnot).ahead stepped h
  unfold step at h
  rw [bind_eq_ok] at h
  have ⟨_, hread, _⟩ := h
  have ⟨_, _, byte, hbyte, _, _⟩ := readByte_eq_ok.mp hread
  have hend := hbyte.end_le (by simp)
  rw [List.length_singleton] at hend
  unfold bytesLeft
  rw [hahead]
  simp only [Ptr.block_add, Ptr.offset_add]
  omega

def roundProgram : (Registers × StringPiece) ⊕ (Bool × Registers × StringPiece) → StringPiece
  | .inl (_, program) => program
  | .inr (_, _, program) => program

theorem bytesLeft_of_nextRound (hvm : vm.Interprets env header) {regs : Registers}
    {program : StringPiece} {round : (Registers × StringPiece) ⊕ (Bool × Registers × StringPiece)}
    (h : (nextRound env vm (regs, program)).result = .ok round)
    : bytesLeft env (roundProgram round) < bytesLeft env program := by
  unfold nextRound at h
  rw [bind_eq_ok] at h
  have ⟨(ret, regs', program'), hstep, h⟩ := h
  have hleft := bytesLeft_of_step hvm hstep
  injection h with h
  rw [← h]
  cases ret <;> exact hleft

theorem nextRound_divides_iff (hvm : vm.Interprets env header) {regs : Registers}
    {program : StringPiece}
    : (nextRound env vm (regs, program)).result = .error .divisionByZero
        ↔ header.lineRange = 0 ∧ DividesAt env header program := by
  rw [← step_divides_iff hvm regs]
  unfold nextRound
  rw [bind_eq_error]
  constructor
  . intro h
    cases h with
    | inl h => exact h
    | inr h =>
      have ⟨_, _, h⟩ := h
      contradiction
  . intro h
    exact Or.inl h

-- `Next` comes from the registers and the program to these of a later `Step`.
def Reaches (env : Env) (vm : LineNumberVM) (state state' : Registers × StringPiece) : Prop :=
  ∃ n, Rounds (nextRound env vm) n state state'

theorem le_bytesLeft (hvm : vm.Interprets env header) {n : Nat} {state state' : Registers × StringPiece}
    (h : Rounds (nextRound env vm) n state state')
    : n + bytesLeft env state'.2 ≤ bytesLeft env state.2 := by
  apply h.add_le fun state => bytesLeft env state.2
  intro (regs, program) (regs', program') hround
  exact bytesLeft_of_nextRound hvm hround

theorem bytesLeft_lt_rounds (program : StringPiece) : bytesLeft env program < rounds env program := by
  unfold bytesLeft rounds
  omega

theorem next_divides_iff (hvm : vm.Interprets env header) {regs : Registers} {program : StringPiece}
    : (next env vm regs program).result = .error .divisionByZero
        ↔ header.lineRange = 0
          ∧ ∃ state, Reaches env vm (regs, program) state ∧ DividesAt env header state.2 := by
  constructor
  . intro h
    have ⟨n, _, (regs', program'), hrounds, hstop⟩ := rounds_of_loop_error (by decide) h
    have ⟨hrange, hdivides⟩ := (nextRound_divides_iff hvm).mp hstop
    exact ⟨hrange, (regs', program'), ⟨n, hrounds⟩, hdivides⟩
  . intro ⟨hrange, (regs', program'), ⟨n, hrounds⟩, hdivides⟩
    have hn := le_bytesLeft hvm hrounds
    have hlt := @bytesLeft_lt_rounds env program
    apply hrounds.loop_stop ((nextRound_divides_iff hvm).mpr ⟨hrange, hdivides⟩)
    dsimp only at hn
    omega

theorem bytesLeft_of_next (hvm : vm.Interprets env header) {regs regs' : Registers}
    {program program' : StringPiece} {more : Bool}
    (h : (next env vm regs program).result = .ok (more, regs', program'))
    : bytesLeft env program' < bytesLeft env program := by
  have ⟨n, _, (regs'', program''), hrounds, hlast⟩ := rounds_of_loop_ok h
  have hn := le_bytesLeft hvm hrounds
  have hleft := bytesLeft_of_nextRound hvm hlast
  dsimp only [roundProgram] at hn hleft
  omega

def searchStart (vm : LineNumberVM) : Search where
  state := .start
  regs := reset vm
  prevFile := 0
  prevLine := 0
  program := vm.data

def Executes (env : Env) (vm : LineNumberVM) (target : Nat) (program : StringPiece) : Prop :=
  ∃ n search, Rounds (findAddressRound env vm target) n (searchStart vm) search
    ∧ search.program.isEmpty = false
    ∧ ∃ regs, Reaches env vm (search.regs, search.program) (regs, program)

theorem bytesLeft_of_findAddressRound (hvm : vm.Interprets env header) {target : Nat}
    {search search' : Search}
    (h : (findAddressRound env vm target search).result = .ok (.inl search'))
    : bytesLeft env search'.program < bytesLeft env search.program := by
  unfold findAddressRound at h
  split at h
  next => simp at h
  next =>
    rw [bind_eq_ok] at h
    have ⟨(more, regs, program), hnext, h⟩ := h
    have hleft := bytesLeft_of_next hvm hnext
    dsimp only at h
    split at h
    next =>
      rw [bind_eq_ok] at h
      have ⟨_, _, h⟩ := h
      simp at h
    next =>
      injection h with h
      injection h with h
      rw [← h]
      exact hleft

theorem findAddressRound_divides_iff {target : Nat} {search : Search}
    : (findAddressRound env vm target search).result = .error .divisionByZero
        ↔ search.program.isEmpty = false
          ∧ (next env vm search.regs search.program).result = .error .divisionByZero := by
  unfold findAddressRound
  split
  next hempty => simp [hempty]
  next hempty =>
    rw [bind_eq_error]
    constructor
    . intro h
      cases h with
      | inl h => exact ⟨by simpa using hempty, h⟩
      | inr h =>
        have ⟨(more, regs, program), _, h⟩ := h
        dsimp only at h
        split at h
        next =>
          have hfound : Undivided (found env vm search.prevFile search.prevLine >>= fun result =>
              pure (.inr result) : Reader (Search ⊕ Found)) :=
            undivided_bind (undivided_found _ _) fun _ => undivided_pure _
          exact absurd h hfound
        next => contradiction
    . intro ⟨_, h⟩
      exact Or.inl h

theorem findAddress_divides_iff (hvm : vm.Interprets env header) {target : Nat}
    : (vm.findAddress env target).result = .error .divisionByZero
        ↔ header.lineRange = 0
          ∧ ∃ program, Executes env vm target program ∧ DividesAt env header program := by
  constructor
  . intro h
    have ⟨n, _, search, hrounds, hstop⟩ := rounds_of_loop_error (by decide) h
    have ⟨hempty, hnext⟩ := findAddressRound_divides_iff.mp hstop
    have ⟨hrange, (regs, program), hreaches, hdivides⟩ := (next_divides_iff hvm).mp hnext
    exact ⟨hrange, program, ⟨n, search, hrounds, hempty, regs, hreaches⟩, hdivides⟩
  . intro ⟨hrange, program, ⟨n, search, hrounds, hempty, regs, hreaches⟩, hdivides⟩
    have hn := hrounds.add_le (fun search => bytesLeft env search.program)
      fun _ _ hround => bytesLeft_of_findAddressRound hvm hround
    have hlt := @bytesLeft_lt_rounds env vm.data
    have hnext := (next_divides_iff hvm).mpr ⟨hrange, (regs, program), hreaches, hdivides⟩
    apply hrounds.loop_stop (findAddressRound_divides_iff.mpr ⟨hempty, hnext⟩)
    dsimp only [searchStart] at hn
    omega

-- The programs of `Next` and of `FindAddress` behind the header, in every memory with it
def NeverDivides (header : LineHeader) : Prop :=
  ∀ env data compilationDirectory vm, HeaderAt env data.data header →
    (create env data compilationDirectory).result = .ok vm →
    (∀ regs program, (next env vm regs program).result ≠ .error .divisionByZero)
    ∧ ∀ target, (vm.findAddress env target).result ≠ .error .divisionByZero

theorem interprets_of_create {data compilationDirectory : StringPiece}
    (hcreate : (create env data compilationDirectory).result = .ok vm)
    (hheader : HeaderAt env data.data header) : vm.Interprets env header := by
  have ⟨header', bytes', hencodes', hbytes', hopened, _⟩ := opened_of_create hcreate
  have ⟨bytes, hencodes, hbytes⟩ := hheader
  rw [header_unique hencodes hencodes' hbytes hbytes']
  exact hopened.interprets

-- As an opcode the `opcode_base` of the header is a special one.
theorem exists_dividesAt (hheader : HeaderAt env p header) : ∃ program, DividesAt env header program := by
  have ⟨bytes, hencodes, hbytes⟩ := hheader
  cases hencodes with
  | mk hwell hdirs hfiles =>
    unfold LineHeader.fields at hbytes
    have hbefore := (Env.holds_append.mp (Env.holds_append.mp (Env.holds_append.mp hbytes).1).1).1
    have hopcode := (Env.holds_append.mp hbefore).2
    have hread := read_toLittleEndian (s := ⟨_, 2⟩) hopcode hwell.opcodeBase.2 (by simp)
    exact ⟨_, _, _, hread, Or.inl (Nat.le_refl _)⟩

theorem neverDivides_iff {data compilationDirectory : StringPiece}
    (hcreate : (create env data compilationDirectory).result = .ok vm)
    (hheader : HeaderAt env data.data header)
    : (NeverDivides header ↔ header.lineRange ≠ 0)
        ∧ ∀ target, (vm.findAddress env target).result = .error .divisionByZero
          ↔ header.lineRange = 0
            ∧ ∃ program, Executes env vm target program ∧ DividesAt env header program := by
  have hvm := interprets_of_create hcreate hheader
  refine ⟨?_, fun target => findAddress_divides_iff hvm⟩
  constructor
  . intro hnever hrange
    have ⟨program, hdivides⟩ := exists_dividesAt hheader
    apply (hnever env data compilationDirectory vm hheader hcreate).1 (reset vm) program
    exact (next_divides_iff hvm).mpr ⟨hrange, (reset vm, program), ⟨0, .refl _⟩, hdivides⟩
  . intro hrange env' data' compilationDirectory' vm' hheader' hcreate'
    have hvm' := interprets_of_create hcreate' hheader'
    constructor
    . intro regs program h
      exact hrange ((next_divides_iff hvm').mp h).1
    . intro target h
      exact hrange ((findAddress_divides_iff hvm').mp h).1

/-! The unit of `exampleHeader`, and the same unit with the `line_range` 0. -/

theorem neverDivides_iff_example : NeverDivides exampleHeader := by
  have haccepted : (create exampleEnv ⟨⟨.debugLine, 0⟩, 51⟩ .null).result.toBool = true := by
    decide +kernel
  have ⟨vm, hcreate⟩ := Traced.exists_ok_of_toBool haccepted
  exact (neverDivides_iff hcreate ⟨exampleUnit, exampleHeader_encodes, by decide⟩).1.mpr (by decide)

def zeroRangeHeader : LineHeader := { exampleHeader with lineRange := 0 }

def zeroRangeUnit : List UInt8 :=
  zeroRangeHeader.fields ++ ([0x64] ++ [0] ++ [0])
    ++ ([0x66] ++ [0] ++ [0x01] ++ [0x00] ++ [0x00] ++ [0])

def zeroRangeEnv : Env := .ofSection .debugLine (zeroRangeUnit ++ exampleProgram) (by decide)

theorem not_neverDivides
    : ∃ vm, (create zeroRangeEnv ⟨⟨.debugLine, 0⟩, 51⟩ .null).result = .ok vm
        ∧ (vm.findAddress zeroRangeEnv 0x15).result = .error .divisionByZero
        ∧ ¬NeverDivides zeroRangeHeader := by
  have haccepted : (create zeroRangeEnv ⟨⟨.debugLine, 0⟩, 51⟩ .null).result.toBool = true := by
    decide +kernel
  have hdivides : (create zeroRangeEnv ⟨⟨.debugLine, 0⟩, 51⟩ .null
      >>= fun vm => vm.findAddress zeroRangeEnv 0x15).result = .error .divisionByZero := by
    decide +kernel
  have ⟨vm, hcreate⟩ := Traced.exists_ok_of_toBool haccepted
  rw [result_bind_of_ok hcreate] at hdivides
  have hheader : HeaderAt zeroRangeEnv ⟨.debugLine, 0⟩ zeroRangeHeader :=
    ⟨zeroRangeUnit, exampleTables_encodes ⟨by decide, by decide, by decide, by decide, by decide,
      by decide, by decide, by decide, by decide⟩ rfl rfl, by decide⟩
  refine ⟨vm, hcreate, hdivides, ?_⟩
  intro hnever
  exact (hnever zeroRangeEnv _ _ vm hheader hcreate).2 0x15 hdivides

end LineNumberVM
end Dwarf
end Claire
