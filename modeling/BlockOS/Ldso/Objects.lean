import BlockOS.Lib.Words

/-! The table of loaded objects of the dynamic linker, `ldso.c`. -/

namespace BlockOS.Ldso
open Words

abbrev Name := List Byte

def text (s : String) : Name := s.toList.map fun c => BitVec.ofNat 8 c.toNat

structure Obj where
  name : Name
  path : Name := []
  base : Word := 0
  minVaddr : Word := 0
  maxVaddr : Word := 0
  init : Word := 0
  initArray : Word := 0
  initArraySz : Word := 0
  needed : List Name := []
  soname : Name := []
  isMain : Bool := false

def Obj.contains (o : Obj) (addr size : Word) : Bool :=
  !(addr + size < addr) && o.minVaddr + o.base ≤ addr && addr + size ≤ o.maxVaddr + o.base

def findObjName (objs : List Obj) (name : Name) : Option Nat :=
  objs.findIdx? fun o => o.name == name || o.soname == name

inductive Stop where
  | died
  | tooDeep
  deriving DecidableEq

theorem findObjName_lt (h : findObjName objs name = some i) : i < objs.length :=
  (List.findIdx?_eq_some_iff_findIdx_eq.mp h).1

end BlockOS.Ldso
