import ClaireCommon.Symbolizer.Impl.LineNumberVM

/-!
This module contains the readers that never divide by zero. Of the line number machine these are all but
`Step` and what runs it.
-/

namespace Claire

open Traced

variable {env : Env} {α β σ : Type}

def Undivided (x : Reader α) : Prop := x.result ≠ .error .divisionByZero

@[simp]
theorem undivided_pure (a : α) : Undivided (pure a) := by
  simp [Undivided]

@[simp]
theorem undivided_stop (e : Stop) : Undivided (stop e : Reader α) ↔ e ≠ .divisionByZero := by
  simp [Undivided]

theorem undivided_bind {x : Reader α} {f : α → Reader β} (hx : Undivided x)
    (hf : ∀ a, Undivided (f a)) : Undivided (x >>= f) := by
  intro h
  cases bind_eq_error.mp h with
  | inl h => exact hx h
  | inr h =>
    have ⟨a, _, h⟩ := h
    exact hf a h

theorem undivided_loop {body : σ → Reader (σ ⊕ α)} {n : Nat} {s : σ}
    (hbody : ∀ s, Undivided (body s)) : Undivided (loop .stuck body n s) := by
  intro h
  have ⟨_, _, s', _, h⟩ := rounds_of_loop_error (by decide) h
  exact hbody s' h

theorem undivided_emit (event : Observation) : Undivided (emit event) := by
  simp [Undivided]

theorem undivided_check (condition : Bool) : Undivided (Reader.check condition) := by
  unfold Reader.check
  split <;> simp

namespace Env

theorem undivided_dassert (condition : Bool) : Undivided (env.dassert condition) := by
  unfold dassert
  split <;> simp

theorem undivided_dcheck (condition : Bool) : Undivided (env.dcheck condition) := by
  unfold dcheck
  split <;> simp

theorem undivided_peek (p : Ptr) : Undivided (env.peek p) := by
  apply undivided_bind (undivided_emit _)
  intro _
  split <;> simp

theorem undivided_peekMany (p : Ptr) (n : Nat) : Undivided (env.peekMany p n) := by
  induction n generalizing p with
  | zero => exact undivided_pure _
  | succ n ih =>
    apply undivided_bind (undivided_peek p)
    intro _
    apply undivided_bind (ih _)
    intro _
    exact undivided_pure _

theorem undivided_memchr (p : Ptr) (c : UInt8) (n : Nat) : Undivided (env.memchr p c n) := by
  induction n generalizing p with
  | zero => exact undivided_pure _
  | succ n ih =>
    apply undivided_bind (undivided_peek p)
    intro byte
    split
    next => exact undivided_pure _
    next => apply ih

end Env

theorem StringPiece.undivided_ofRange (left right : Ptr) : Undivided (ofRange env left right) :=
  undivided_bind (Env.undivided_dassert _) fun _ => undivided_pure _

theorem StringPiece.undivided_advance (s : StringPiece) (n : Nat) : Undivided (s.advance env n) :=
  undivided_bind (Env.undivided_dassert _) fun _ => undivided_pure _

namespace Dwarf

theorem undivided_read (n : Nat) (s : StringPiece) : Undivided (read env n s) := by
  apply undivided_bind (undivided_check _)
  intro _
  apply undivided_bind (Env.undivided_peekMany _ _)
  intro _
  apply undivided_bind (StringPiece.undivided_advance _ _)
  intro _
  apply undivided_bind (undivided_emit _)
  intro _
  exact undivided_pure _

theorem undivided_readULEBFull (s : StringPiece) : Undivided (readULEBFull env s) := by
  apply undivided_loop
  intro u
  apply undivided_bind (undivided_read _ _)
  intro _
  dsimp only
  split <;> simp

theorem undivided_readULEB (s : StringPiece) : Undivided (readULEB env s) :=
  undivided_bind (undivided_readULEBFull s) fun _ => undivided_pure _

theorem undivided_readSLEB (s : StringPiece) : Undivided (readSLEB env s) :=
  undivided_bind (undivided_readULEBFull s) fun _ => undivided_pure _

theorem undivided_readNullTerminated (s : StringPiece) : Undivided (readNullTerminated env s) := by
  apply undivided_bind (Env.undivided_memchr _ _ _)
  intro found
  cases found with
  | none => simp
  | some p => exact undivided_bind (StringPiece.undivided_ofRange _ _) fun _ => undivided_pure _

theorem undivided_skipSlashes (p : Ptr) (n : Nat) : Undivided (skipSlashes env p n) := by
  induction n generalizing p with
  | zero => exact undivided_pure _
  | succ n ih =>
    apply undivided_bind (Env.undivided_peek p)
    intro byte
    split
    next => apply ih
    next => exact undivided_pure _

theorem undivided_dropSlashes (p : Ptr) (n : Nat) : Undivided (dropSlashes env p n) := by
  induction n with
  | zero => exact undivided_pure _
  | succ n ih =>
    apply undivided_bind (Env.undivided_peek _)
    intro byte
    split
    next => exact ih
    next => exact undivided_pure _

theorem undivided_stripSlashes (s : StringPiece) (keepInitialSlash : Bool)
    : Undivided (stripSlashes env s keepInitialSlash) := by
  unfold stripSlashes
  split
  next => exact undivided_pure _
  next =>
    apply undivided_bind (undivided_skipSlashes _ _)
    intro p
    apply undivided_bind (undivided_dropSlashes _ _)
    intro q
    exact undivided_pure _

namespace Path

theorem undivided_startsWithSlash (s : StringPiece) : Undivided (startsWithSlash env s) :=
  undivided_bind (Env.undivided_peek _) fun _ => undivided_pure _

theorem undivided_isAbsolute (s : StringPiece) : Undivided (isAbsolute env s) := by
  unfold isAbsolute
  split
  next => exact undivided_pure _
  next => apply undivided_startsWithSlash

theorem undivided_normalize (path : Path) : Undivided (normalize env path) := by
  apply undivided_bind (undivided_startsWithSlash _)
  intro _
  apply undivided_bind (undivided_isAbsolute _)
  intro _
  exact undivided_pure _

theorem undivided_create (baseDir subDir file : StringPiece)
    : Undivided (create env baseDir subDir file) := by
  unfold create
  split
  next => exact undivided_pure _
  next =>
    apply undivided_bind (undivided_normalize _)
    intro path
    apply undivided_bind (undivided_stripSlashes _ _)
    intro _
    apply undivided_bind (undivided_stripSlashes _ _)
    intro _
    apply undivided_bind (undivided_stripSlashes _ _)
    intro _
    exact undivided_pure _

end Path

namespace LineNumberVM

variable {vm : LineNumberVM}

theorem undivided_readFileName (program : StringPiece) : Undivided (readFileName env program) := by
  apply undivided_bind (undivided_readNullTerminated _)
  intro (relativeName, program)
  dsimp only
  split
  next => exact undivided_pure _
  next =>
    apply undivided_bind (undivided_readULEB _)
    intro _
    apply undivided_bind (undivided_readULEB _)
    intro _
    apply undivided_bind (undivided_readULEB _)
    intro _
    exact undivided_pure _

theorem undivided_skipArguments (program : StringPiece) (argCount : Nat)
    : Undivided (skipArguments env program argCount) := by
  induction argCount generalizing program with
  | zero => exact undivided_pure _
  | succ argCount ih => exact undivided_bind (undivided_readULEB _) fun _ => ih _

theorem undivided_nextDefineFile (program : StringPiece)
    : Undivided (nextDefineFile env vm program) := by
  apply undivided_loop
  intro program
  unfold nextDefineFileRound
  split
  next => exact undivided_pure _
  next =>
    apply undivided_bind (undivided_read _ _)
    intro (opcode, program)
    dsimp only
    split
    next => exact undivided_pure _
    next =>
      split
      next =>
        apply undivided_bind (Env.undivided_peek _)
        intro _
        apply undivided_bind (undivided_skipArguments _ _)
        intro _
        exact undivided_pure _
      next =>
        apply undivided_bind (undivided_readULEB _)
        intro _
        apply undivided_bind (undivided_check _)
        intro _
        apply undivided_bind (undivided_read _ _)
        intro _
        split
        next =>
          apply undivided_bind (undivided_readFileName _)
          intro _
          apply undivided_bind (undivided_check _)
          intro _
          exact undivided_pure _
        next =>
          apply undivided_bind (StringPiece.undivided_advance _ _)
          intro _
          exact undivided_pure _

theorem undivided_skipToFileName (fn : FileName) (fileNames : StringPiece) (index : Nat)
    : Undivided (skipToFileName env fn fileNames index) := by
  induction index generalizing fn fileNames with
  | zero => exact undivided_pure _
  | succ index ih =>
    apply undivided_bind (undivided_readFileName _)
    intro (fn, fileNames)
    cases fn with
    | none => simp
    | some fn => apply ih

theorem undivided_skipToDefineFile (fn : FileName) (program : StringPiece) (index : Nat)
    : Undivided (skipToDefineFile env vm fn program index) := by
  induction index generalizing fn program with
  | zero => exact undivided_pure _
  | succ index ih =>
    apply undivided_bind (undivided_nextDefineFile _)
    intro (fn, program)
    cases fn with
    | none => simp
    | some fn => apply ih

theorem undivided_getFileName (index : Nat) : Undivided (getFileName env vm index) := by
  apply undivided_bind (Env.undivided_dcheck _)
  intro _
  dsimp only
  split
  next => apply undivided_skipToFileName
  next => apply undivided_skipToDefineFile

theorem undivided_skipToDirectory (dir includeDirectories : StringPiece) (index : Nat)
    : Undivided (skipToDirectory env dir includeDirectories index) := by
  induction index generalizing dir includeDirectories with
  | zero => exact undivided_pure _
  | succ index ih =>
    apply undivided_bind (undivided_readNullTerminated _)
    intro _
    dsimp only
    split
    next => simp
    next => apply ih

theorem undivided_getIncludeDirectory (index : Nat)
    : Undivided (getIncludeDirectory env vm index) := by
  unfold getIncludeDirectory
  split
  next => exact undivided_pure _
  next => exact undivided_bind (undivided_check _) fun _ => undivided_skipToDirectory _ _ _

theorem undivided_found (prevFile prevLine : Nat) : Undivided (found env vm prevFile prevLine) := by
  unfold found
  split
  next => exact undivided_pure _
  next =>
    apply undivided_bind (undivided_getFileName _)
    intro _
    apply undivided_bind (undivided_getIncludeDirectory _)
    intro _
    apply undivided_bind (Path.undivided_create _ _ _)
    intro _
    exact undivided_pure _

end LineNumberVM
end Dwarf
end Claire
