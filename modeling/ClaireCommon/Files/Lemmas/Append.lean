import ClaireCommon.Files.Lemmas.WriteStringToFile

/-!
This module contains the proof that `Append` hands over every byte once, whatever the calls of
`fwrite` accept.
-/

namespace Claire
namespace FileUtil
namespace WritableFile

variable {lib : CLibrary} {file : WritableFile} {data : List UInt8} {n : Nat}

theorem appendFromLogged_fst (calls : List Fwrite)
    : (file.appendFromLogged lib calls data n).1 = file.appendFrom lib data n := by
  fun_induction appendFrom lib file data n generalizing calls with
  | case1 file n hlt file' hfwrite =>
    rw [appendFromLogged, if_pos hlt, hfwrite]
    rfl
  | case2 file n hlt x file' hfwrite hx ih =>
    rw [appendFromLogged, if_pos hlt, hfwrite]
    dsimp only
    rw [if_neg hx, ih]
  | case3 file n hge => rw [appendFromLogged, if_neg hge]

theorem appendLogged_fst : (file.appendLogged lib data).1 = file.append lib data :=
  appendFromLogged_fst _

-- Each call starts where the bytes that were accepted so far end and asks for all that follow.
-- The last argument is how many bytes all calls have accepted.
inductive Consecutive (length : Nat) : List Fwrite → Nat → Prop
  | nil : Consecutive length [] 0
  | snoc {calls : List Fwrite} {n x : Nat} (h : Consecutive length calls n) (hx : n + x ≤ length)
      : Consecutive length (calls ++ [⟨n, length - n, x⟩]) (n + x)

namespace Consecutive

variable {calls : List Fwrite} {length : Nat}

theorem le (h : Consecutive length calls n) : n ≤ length := by
  cases h with
  | nil => apply Nat.zero_le
  | snoc h hx => exact hx

theorem sum_eq (h : Consecutive length calls n) : (calls.map Fwrite.accepted).sum = n := by
  induction h with
  | nil => rfl
  | snoc h hx ih => simp [ih]

theorem flatMap_eq (h : Consecutive data.length calls n)
    : calls.flatMap (fun c => (data.drop c.offset).take c.accepted) = data.take n := by
  induction h with
  | nil => rfl
  | snoc h hx ih => rw [List.flatMap_append, ih, List.flatMap_singleton, List.take_add]

end Consecutive

-- What is known between two calls: `n` bytes are accepted but not counted yet. Only the first call
-- may have accepted nothing.
structure Handing (lib : CLibrary) (start : WritableFile) (data : List UInt8) (file : WritableFile)
    (calls : List Fwrite) (n : Nat) : Prop where
  consecutive : Consecutive data.length calls n
  accepted : file.accepted = start.accepted ++ data.take n
  writtenBytes : file.writtenBytes = start.writtenBytes
  rounds : calls.length ≤ n + 1

structure HandedOver (start : WritableFile) (data : List UInt8) (status : Status)
    (file : WritableFile) (calls : List Fwrite) (n : Nat) : Prop where
  consecutive : Consecutive data.length calls n
  accepted : file.accepted = start.accepted ++ data.take n
  writtenBytes : file.writtenBytes = start.writtenBytes + n
  sum : (calls.map Fwrite.accepted).sum = n
  ranges : calls.flatMap (fun c => (data.drop c.offset).take c.accepted) = data.take n
  kOk : status = .kOk ↔ n = data.length
  rounds : calls.length ≤ data.length + 1

theorem Handing.fwrite {start file' : WritableFile} {calls : List Fwrite} {x : Nat}
    (h : Handing lib start data file calls n) (hfwrite : file.fwrite lib (data.drop n) = (x, file'))
    (hn : n < data.length)
    : Consecutive data.length (calls ++ [⟨n, data.length - n, x⟩]) (n + x)
        ∧ file'.accepted = start.accepted ++ data.take (n + x)
        ∧ file'.writtenBytes = start.writtenBytes := by
  have ⟨hx, hfile⟩ := fwrite_eq hfwrite
  rw [List.length_drop] at hx
  refine ⟨h.consecutive.snoc (by omega), ?_, ?_⟩
  . rw [hfile, h.accepted, List.take_add, List.append_assoc]
  . rw [hfile, h.writtenBytes]

theorem Handing.appendFrom {start : WritableFile} {calls : List Fwrite}
    (h : Handing lib start data file calls n)
    : ∃ m, HandedOver start data (file.appendFromLogged lib calls data n).1.1
        (file.appendFromLogged lib calls data n).1.2
        (file.appendFromLogged lib calls data n).2 m := by
  fun_induction appendFromLogged lib file calls data n with
  | case1 file calls n hlt file' hfwrite =>
    have ⟨hconsecutive, haccepted, hwritten⟩ := h.fwrite hfwrite hlt
    have hrounds := h.rounds
    refine ⟨n, hconsecutive, haccepted, ?_, hconsecutive.sum_eq, hconsecutive.flatMap_eq, ?_, ?_⟩
    . dsimp only
      rw [hwritten]
    . simp
      omega
    . rw [List.length_append, List.length_singleton]
      omega
  | case2 file calls n hlt x file' hfwrite calls' hx ih =>
    have ⟨hconsecutive, haccepted, hwritten⟩ := h.fwrite hfwrite hlt
    have hrounds := h.rounds
    apply ih
    refine ⟨hconsecutive, haccepted, hwritten, ?_⟩
    rw [List.length_append, List.length_singleton]
    omega
  | case3 file calls n hge =>
    have hle := h.consecutive.le
    have hrounds := h.rounds
    refine ⟨n, h.consecutive, h.accepted, ?_, h.consecutive.sum_eq, h.consecutive.flatMap_eq, ?_, ?_⟩
    . dsimp only
      rw [h.writtenBytes]
    . simp
      omega
    . dsimp only
      omega

theorem append_handsOver (lib : CLibrary) (file : WritableFile) (data : List UInt8)
    : ∃ n, HandedOver file data (file.append lib data).1 (file.append lib data).2
        (file.appendLogged lib data).2 n := by
  rw [← appendLogged_fst]
  unfold appendLogged
  cases hfwrite : file.fwrite lib data with
  | mk n file' =>
    have ⟨hn, hfile⟩ := fwrite_eq hfwrite
    apply Handing.appendFrom
    constructor
    . have hfirst := @Consecutive.nil data.length |>.snoc (x := n) (by omega)
      rw [Nat.zero_add] at hfirst
      exact hfirst
    . rw [hfile]
    . rw [hfile]
    . rw [List.length_singleton]
      omega

end WritableFile
end FileUtil
end Claire
