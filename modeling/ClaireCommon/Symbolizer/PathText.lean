import ClaireCommon.Lib.Separators

/-!
This module contains paths as texts: what the constructor of `Path` makes of its three parts, the text
that a path stands for, and the file name that the parts usually resolve to.
-/

namespace Claire
namespace Dwarf

open Separators

def slash : UInt8 := 0x2f

def IsAbsolute (text : List UInt8) : Prop := text.head? = some slash

instance (text : List UInt8) : Decidable (IsAbsolute text) :=
  inferInstanceAs (Decidable (text.head? = some slash))

def strip (keepInitialSlash : Bool) (text : List UInt8) : List UInt8 :=
  if keepInitialSlash ∧ IsAbsolute text then slash :: trim slash text else trim slash text

structure PathText where
  baseDir : List UInt8
  subDir : List UInt8
  file : List UInt8

namespace PathText

def clearDirs (t : PathText) : PathText :=
  if IsAbsolute t.file then { t with baseDir := [], subDir := [] } else t

def clearBaseDir (t : PathText) : PathText :=
  if IsAbsolute t.subDir then { t with baseDir := [] } else t

def fillBaseDir (t : PathText) : PathText :=
  if t.baseDir = [] then { t with baseDir := t.subDir, subDir := t.baseDir } else t

def stripParts (t : PathText) : PathText where
  baseDir := strip true t.baseDir
  subDir := strip false t.subDir
  file := strip false t.file

def create (t : PathText) : PathText :=
  if t.file = [] then ⟨[], [], []⟩ else t.clearDirs.clearBaseDir.fillBaseDir.stripParts

def slashed (part : List UInt8) : List UInt8 := if part = [] then [] else slash :: part

def render (t : PathText) : List UInt8 := t.baseDir ++ slashed t.subDir ++ slashed t.file

def joined (dir file : List UInt8) : List UInt8 := if dir = [] then file else dir ++ slash :: file

def resolve (t : PathText) : List UInt8 :=
  if IsAbsolute t.file then
    t.file
  else if IsAbsolute t.subDir then
    joined t.subDir t.file
  else
    joined t.baseDir (joined t.subDir t.file)

end PathText
end Dwarf
end Claire
