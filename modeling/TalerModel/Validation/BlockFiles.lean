import TalerModel.Validation.Accept

namespace Taler

def MAX_BLOCKFILE_SIZE : Nat := 0x8000000
def BLOCKFILE_CHUNK_SIZE : Nat := 0x1000000
def UNDOFILE_CHUNK_SIZE : Nat := 0x100000

structure CBlockFileInfo where
  nBlocks : Nat := 0
  nSize : Nat := 0
  nUndoSize : Nat := 0
  nHeightFirst : Nat := 0
  nHeightLast : Nat := 0
  nTimeFirst : Nat := 0
  nTimeLast : Nat := 0

def CBlockFileInfo.addBlock (info : CBlockFileInfo) (nHeightIn nTimeIn : Nat) : CBlockFileInfo :=
  { info with
    nHeightFirst := if info.nBlocks = 0 ∨ info.nHeightFirst > nHeightIn then nHeightIn
      else info.nHeightFirst
    nTimeFirst := if info.nBlocks = 0 ∨ info.nTimeFirst > nTimeIn then nTimeIn
      else info.nTimeFirst
    nBlocks := info.nBlocks + 1
    nHeightLast := if nHeightIn > info.nHeightLast then nHeightIn else info.nHeightLast
    nTimeLast := if nTimeIn > info.nTimeLast then nTimeIn else info.nTimeLast }

structure CDiskBlockPos where
  nFile : Nat
  nPos : Nat

-- What an entry says about its files. The sizes of what was written are kept for the proofs.
structure FileEntry where
  nFile : Nat := 0
  nDataPos : Nat := 0
  nUndoPos : Nat := 0
  haveData : Bool := false
  haveUndo : Bool := false
  dataSize : Nat := 0
  undoSize : Nat := 0

structure BlockFiles where
  vinfoBlockFile : Nat → CBlockFileInfo := fun _ => {}
  nFiles : Nat := 0
  nLastBlockFile : Nat := 0
  entry : CBlockIndex → FileEntry := fun _ => {}

namespace BlockFiles

variable (s : BlockFiles) (nFile : Nat)

def setInfo (info : CBlockFileInfo) : BlockFiles :=
  { s with vinfoBlockFile := Function.update s.vinfoBlockFile nFile info }

variable (p : CBlockIndex)

def setEntry (entry : FileEntry) : BlockFiles :=
  { s with entry := Function.update s.entry p entry }

-- The first file with room, from the last one on. A new file has room, unless the loop hangs.
def findFile (nAddSize : Nat) : Option Nat :=
  (List.range' s.nLastBlockFile (s.nFiles + 1)).find? fun nFile =>
    (s.vinfoBlockFile nFile).nSize + nAddSize < MAX_BLOCKFILE_SIZE

def enterFile (info : CBlockFileInfo) : BlockFiles :=
  { s.setInfo nFile info with nFiles := max s.nFiles (nFile + 1), nLastBlockFile := nFile }

def findBlockPos (nAddSize nHeight nTime : Nat) :
    Option CDiskBlockPos → Option (CDiskBlockPos × BlockFiles)
  | some pos =>
    let info := (s.vinfoBlockFile pos.nFile).addBlock nHeight nTime
    some (pos, s.enterFile pos.nFile { info with nSize := max (pos.nPos + nAddSize) info.nSize })
  | none => (s.findFile nAddSize).map fun nFile =>
    let info := (s.vinfoBlockFile nFile).addBlock nHeight nTime
    (⟨nFile, info.nSize⟩, s.enterFile nFile { info with nSize := info.nSize + nAddSize })

-- Stores a block without data. If the disk is full, only the file is entered.
def saveBlockToDisk (nTime nBlockSize : Nat) (dbp : Option CDiskBlockPos)
    (fDisk : Bool) : Option BlockFiles :=
  if (s.entry p).haveData then some s else
  (s.findBlockPos (nBlockSize + 8) (nHeight p) nTime dbp).map fun (pos, s) =>
    if !fDisk then s else s.setEntry p { s.entry p with
      nFile := pos.nFile
      nDataPos := if dbp.isSome then pos.nPos else pos.nPos + 8
      nUndoPos := 0
      haveData := true
      dataSize := nBlockSize }

-- The undo data of a block that is connected, so that its data is there. The counter has 32 bits.
def writeUndoDataForBlock (nUndoSize : Nat) (fDisk : Bool) : BlockFiles :=
  let entry := s.entry p
  if !entry.haveData || entry.haveUndo then s else
  let info := s.vinfoBlockFile entry.nFile
  let s := s.setInfo entry.nFile
    { info with nUndoSize := (info.nUndoSize + (nUndoSize + 40)) % 2 ^ 32 }
  if !fDisk then s else s.setEntry p { entry with
    nUndoPos := info.nUndoSize + 8
    haveUndo := true
    undoSize := nUndoSize }

def pruneOneBlockFile (fileNumber : Nat) : BlockFiles :=
  { s.setInfo fileNumber {} with
    entry := fun p => if (s.entry p).nFile ≠ fileNumber then s.entry p else { s.entry p with
      nFile := 0, nDataPos := 0, nUndoPos := 0, haveData := false, haveUndo := false } }

def pruneOneUndoFile (fileNumber : Nat) : BlockFiles :=
  { s.setInfo fileNumber { s.vinfoBlockFile fileNumber with nUndoSize := 0 } with
    entry := fun p => if (s.entry p).nFile ≠ fileNumber then s.entry p else
      { s.entry p with nUndoPos := 0, haveUndo := false } }

def nLastBlockWeCanPrune (nHeight : Nat) : Nat :=
  (2 ^ 32 + nHeight - MIN_BLOCKS_TO_KEEP) % 2 ^ 32

def findFilesToPruneManual (nHeight nManualPruneHeight : Nat) : BlockFiles :=
  let nLast := min nManualPruneHeight (nLastBlockWeCanPrune nHeight)
  (List.range s.nLastBlockFile).foldl (fun s fileNumber =>
    let info := s.vinfoBlockFile fileNumber
    if info.nSize = 0 ∨ info.nHeightLast > nLast then s
    else s.pruneOneBlockFile fileNumber) s

def usage : Nat :=
  ((s.vinfoBlockFile nFile).nSize + (s.vinfoBlockFile nFile).nUndoSize) % 2 ^ 32

def pruneLoop (nLast nBuffer nPruneTarget : Nat) : List Nat → Nat → BlockFiles → BlockFiles
  | [], _, s => s
  | fileNumber :: rest, nCurrentUsage, s =>
    let info := s.vinfoBlockFile fileNumber
    if info.nSize = 0 then pruneLoop nLast nBuffer nPruneTarget rest nCurrentUsage s else
    if nCurrentUsage + nBuffer < nPruneTarget then s else
    if info.nHeightLast > nLast then pruneLoop nLast nBuffer nPruneTarget rest nCurrentUsage s else
    pruneLoop nLast nBuffer nPruneTarget rest (nCurrentUsage - s.usage fileNumber)
      (s.pruneOneBlockFile fileNumber)

def findFilesToPrune (nHeight nPruneTarget nPruneAfterHeight : Nat) (fInitialDownload : Bool) :
    BlockFiles :=
  let nCurrentUsage := ((List.range s.nFiles).map s.usage).sum
  let nBuffer := BLOCKFILE_CHUNK_SIZE + UNDOFILE_CHUNK_SIZE
  if nPruneTarget = 0 ∨ nHeight ≤ nPruneAfterHeight ∨ nCurrentUsage + nBuffer < nPruneTarget then s
  else
    let nBuffer := if fInitialDownload then nBuffer + nPruneTarget / 10 else nBuffer
    pruneLoop (nLastBlockWeCanPrune nHeight) nBuffer nPruneTarget (List.range s.nLastBlockFile)
      nCurrentUsage s

-- The undo files that a flush of an unpruned node deletes.
def setFilesToUndoPrune (chainActive : CBlockIndex) : List Nat :=
  if nHeight chainActive ≤ 100000 then [] else
  let newfn := (s.entry (getAncestor chainActive (nHeight chainActive - 100000))).nFile
  let newfn := if newfn = s.nLastBlockFile then newfn - 1 else newfn
  (List.range newfn).filter fun fileNumber => (s.vinfoBlockFile fileNumber).nUndoSize ≠ 0

def pruneUndo (chainActive : CBlockIndex) : BlockFiles :=
  (s.setFilesToUndoPrune chainActive).foldl pruneOneUndoFile s

end BlockFiles

inductive FileCall
  | save (p : CBlockIndex) (nTime nBlockSize : Nat) (dbp : Option CDiskBlockPos) (fDisk : Bool)
  | undo (p : CBlockIndex) (nUndoSize : Nat) (fDisk : Bool)
  | pruneBlocks (fileNumber : Nat)
  | pruneUndo (fileNumber : Nat)

def BlockFiles.step (s : BlockFiles) : FileCall → Option BlockFiles
  | .save p nTime nBlockSize dbp fDisk => s.saveBlockToDisk p nTime nBlockSize dbp fDisk
  | .undo p nUndoSize fDisk => some (s.writeUndoDataForBlock p nUndoSize fDisk)
  | .pruneBlocks fileNumber => some (s.pruneOneBlockFile fileNumber)
  | .pruneUndo fileNumber => some (s.pruneOneUndoFile fileNumber)

def BlockFiles.run (s : BlockFiles) : List FileCall → Option BlockFiles
  | [] => some s
  | call :: calls => (s.step call).bind fun s => s.run calls

end Taler
