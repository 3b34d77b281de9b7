import Nachos.Base.Bytes
import Nachos.Filesys.OpenFile

/-!
# NOFF headers (`userprog/noff.h`, `SwapHeader` of `userprog/addrspace.cc`)

The header is read as it stands in the file into an uninitialised variable, and its bytes are swapped
when its magic number shows that it has the other byte order. `RDATA` is defined
(`build.linux/Makefile`).
-/

namespace Nachos

open Base

def noffMagicNumber : Word := 0xbadfad

structure Segment where
  virtualAddr : Word
  inFileAddr : Word
  size : Word
  deriving DecidableEq, Repr

structure NoffHeader where
  noffMagic : Word
  code : Segment
  initData : Segment
  readonlyData : Segment
  uninitData : Segment
  deriving DecidableEq, Repr

def sizeofNoffHeader : Nat := 52

def Segment.ofBytes (cfg : Build) (mem : Memory) (a : Nat) : Segment :=
  ⟨hostWord cfg mem a, hostWord cfg mem (a + 4), hostWord cfg mem (a + 8)⟩

def NoffHeader.ofBytes (cfg : Build) (mem : Memory) : NoffHeader where
  noffMagic := hostWord cfg mem 0
  code := .ofBytes cfg mem 4
  initData := .ofBytes cfg mem 16
  readonlyData := .ofBytes cfg mem 28
  uninitData := .ofBytes cfg mem 40

def Segment.swap (cfg : Build) (s : Segment) : Segment :=
  ⟨wordToHost cfg s.virtualAddr, wordToHost cfg s.inFileAddr, wordToHost cfg s.size⟩

def swapHeader (cfg : Build) (noffH : NoffHeader) : NoffHeader where
  noffMagic := wordToHost cfg noffH.noffMagic
  code := noffH.code.swap cfg
  initData := noffH.initData.swap cfg
  readonlyData := noffH.readonlyData.swap cfg
  uninitData := noffH.uninitData.swap cfg

def Segment.toBytes (cfg : Build) (s : Segment) : List Byte :=
  hostWordBytes cfg s.virtualAddr ++ hostWordBytes cfg s.inFileAddr ++ hostWordBytes cfg s.size

/-- The header of an executable as `coff2noff` writes it: swapped, and then as it stands in the
host's memory. -/
def NoffHeader.toBytes (cfg : Build) (noffH : NoffHeader) : List Byte :=
  let noffH := swapHeader cfg noffH
  hostWordBytes cfg noffH.noffMagic ++ noffH.code.toBytes cfg ++ noffH.initData.toBytes cfg ++
    noffH.readonlyData.toBytes cfg ++ noffH.uninitData.toBytes cfg

/-- The header of an executable, as the constructor of `AddrSpace` and `Load` read it: `junk` are
the bytes of the variable before, which a shorter file leaves in place. -/
def readHeader (cfg : Build) (junk : Memory) (executable : OpenFile) :
    Except Fault NoffHeader := do
  let bytes ← executable.readAt sizeofNoffHeader 0
  let noffH := NoffHeader.ofBytes cfg (writeBlock junk 0 bytes)
  let noffH :=
    if noffH.noffMagic ≠ noffMagicNumber ∧ wordToHost cfg noffH.noffMagic = noffMagicNumber then
      swapHeader cfg noffH
    else noffH
  assert (noffH.noffMagic = noffMagicNumber)
  return noffH

end Nachos
