import TalerModel.Validation.BlockFiles

namespace Taler.BlockFiles

open List Option

structure Entered (s : BlockFiles) (p : CBlockIndex) (nBlockSize : Nat) (dbp : Option CDiskBlockPos)
    (nFile nDataPos : Nat) (info : CBlockFileInfo) : Prop where
  undo : info.nUndoSize = (s.vinfoBlockFile nFile).nUndoSize
  grows : (s.vinfoBlockFile nFile).nHeightLast ≤ info.nHeightLast
  height : nHeight p ≤ info.nHeightLast
  pos : dbp = none → nDataPos = (s.vinfoBlockFile nFile).nSize + 8
  size : dbp = none → info.nSize = (s.vinfoBlockFile nFile).nSize + (nBlockSize + 8)
  room : dbp = none → info.nSize < MAX_BLOCKFILE_SIZE
  file : dbp = none → s.nLastBlockFile ≤ nFile

def saved (s : BlockFiles) (p : CBlockIndex) (nFile nDataPos nBlockSize : Nat) : BlockFiles :=
  s.setEntry p { s.entry p with nFile, nDataPos, nUndoPos := 0, haveData := true,
                                dataSize := nBlockSize }

def counted (s : BlockFiles) (p : CBlockIndex) (nUndoSize : Nat) : BlockFiles :=
  let info := s.vinfoBlockFile (s.entry p).nFile
  s.setInfo (s.entry p).nFile
    { info with nUndoSize := (info.nUndoSize + (nUndoSize + 40)) % 2 ^ 32 }

def written (s : BlockFiles) (p : CBlockIndex) (nUndoSize : Nat) : BlockFiles :=
  (s.counted p nUndoSize).setEntry p { s.entry p with
    nUndoPos := (s.vinfoBlockFile (s.entry p).nFile).nUndoSize + 8
    haveUndo := true
    undoSize := nUndoSize }

inductive Step (s : BlockFiles) : FileCall → BlockFiles → Prop
  | kept (hd : (s.entry p).haveData) : Step s (.save p nTime nBlockSize dbp fDisk) s
  | unwritten : Step s (.undo p nUndoSize fDisk) s
  | entered (he : s.Entered p nBlockSize dbp nFile nDataPos info) :
    Step s (.save p nTime nBlockSize dbp false) (s.enterFile nFile info)
  | saved (he : s.Entered p nBlockSize dbp nFile nDataPos info) (hd : (s.entry p).haveData = false) :
    Step s (.save p nTime nBlockSize dbp true)
      ((s.enterFile nFile info).saved p nFile nDataPos nBlockSize)
  | counted : Step s (.undo p nUndoSize false) (s.counted p nUndoSize)
  | written (hd : (s.entry p).haveData) (hu : (s.entry p).haveUndo = false) :
    Step s (.undo p nUndoSize true) (s.written p nUndoSize)
  | prunedBlocks : Step s (.pruneBlocks fileNumber) (s.pruneOneBlockFile fileNumber)
  | prunedUndo : Step s (.pruneUndo fileNumber) (s.pruneOneUndoFile fileNumber)

variable {s s' : BlockFiles} {p q : CBlockIndex} {call : FileCall} {calls : List FileCall}
  {info : CBlockFileInfo} {dbp : Option CDiskBlockPos} {nBlockSize : Nat}

lemma findBlockPos_entered
    (h : s.findBlockPos (nBlockSize + 8) (nHeight p) nTime dbp = some (pos, s')) :
    ∃ info, s.Entered p nBlockSize dbp pos.nFile (if dbp.isSome then pos.nPos else pos.nPos + 8) info ∧
      s' = s.enterFile pos.nFile info := by
  have hh (info : CBlockFileInfo) : info.nHeightLast ≤ (info.addBlock (nHeight p) nTime).nHeightLast ∧
      nHeight p ≤ (info.addBlock (nHeight p) nTime).nHeightLast := by
    simp only [CBlockFileInfo.addBlock]
    split <;> omega
  cases dbp
  case some =>
    cases h
    have hh := hh (s.vinfoBlockFile pos.nFile)
    refine ⟨_, ?_, rfl⟩
    exact ⟨rfl, hh.1, hh.2, nofun, nofun, nofun, nofun⟩
  case none =>
  have ⟨nFile, hf, he⟩ := map_eq_some_iff.1 h
  cases he
  have hh := hh (s.vinfoBlockFile nFile)
  have hroom := find?_some hf
  have ⟨hfile, _⟩ := mem_range'_1.1 (mem_of_find?_eq_some hf)
  refine ⟨_, ?_, rfl⟩
  exact ⟨rfl, hh.1, hh.2, fun _ => rfl, fun _ => rfl, fun _ => of_decide_eq_true hroom,
    fun _ => hfile⟩

lemma step_cases (h : s.step call = some s') : Step s call s' := by
  cases call
  case save p nTime nBlockSize dbp fDisk =>
    simp only [step, saveBlockToDisk] at h
    split at h
    case isTrue hd => exact some.inj h ▸ .kept hd
    rename_i hd
    have ⟨⟨pos, s1⟩, hp, he⟩ := map_eq_some_iff.1 h
    have ⟨info, hi, hs⟩ := findBlockPos_entered hp
    subst hs
    cases fDisk
    case false => exact he ▸ .entered hi
    case true => exact he ▸ .saved hi (by simpa using hd)
  case undo p nUndoSize fDisk =>
    cases h
    rw [writeUndoDataForBlock]
    dsimp only
    split
    · exact .unwritten
    rename_i hf
    cases fDisk
    case false => exact .counted
    case true => exact .written (by grind) (by grind)
  case pruneBlocks => exact some.inj h ▸ .prunedBlocks
  case pruneUndo => exact some.inj h ▸ .prunedUndo

def Meets (Q : BlockFiles → FileCall → Prop) : List FileCall → BlockFiles → Prop
  | [], _ => True
  | call :: calls, s => Q s call ∧ ∀ s', s.step call = some s' → Meets Q calls s'

lemma meets_true (calls) : Meets (fun _ _ => True) calls s := by
  induction calls generalizing s
  case nil => trivial
  case cons hi => exact ⟨trivial, fun _ _ => hi⟩

lemma run_rule {P : BlockFiles → Prop}
    (step : ∀ {s s' call}, P s → Q s call → Step s call s' → P s') (hp : P s) (hq : Meets Q calls s)
    (h : s.run calls = some s') : P s' := by
  induction calls generalizing s
  case nil => exact some.inj h ▸ hp
  case cons call calls hi =>
  have ⟨s1, hs, h⟩ := bind_eq_some_iff.1 h
  exact hi (step hp hq.1 (step_cases hs)) (hq.2 s1 hs) h

@[simp]
lemma setEntry_entry : (s.setEntry p e).entry q = if q = p then e else s.entry q := by
  simp [setEntry, Function.update_apply]

@[simp]
lemma setEntry_info : (s.setEntry p e).vinfoBlockFile = s.vinfoBlockFile :=
  rfl

@[simp]
lemma setInfo_entry : (s.setInfo nFile info).entry = s.entry :=
  rfl

@[simp]
lemma setInfo_info :
    (s.setInfo nFile info).vinfoBlockFile k = if k = nFile then info else s.vinfoBlockFile k := by
  simp [setInfo, Function.update_apply]

-- A file that is not there has no bytes.
def Blank (s : BlockFiles) : Prop :=
  ∀ k, s.nFiles ≤ k → (s.vinfoBlockFile k).nSize = 0

lemma Blank.step (h : s.Blank) (hs : Step s call s') : s'.Blank := by
  cases hs
  case kept | unwritten => exact h
  all_goals
    intro k hk
    have hb := h k
  case entered | saved =>
    have hk := Nat.max_le.1 hk
    simp only [saved, enterFile, setEntry_info, setInfo_info]
    grind
  case counted | written =>
    have hk : s.nFiles ≤ k := hk
    simp only [written, counted, setEntry_info, setInfo_info]
    grind
  case prunedBlocks | prunedUndo =>
  have hk : s.nFiles ≤ k := hk
  simp only [pruneOneBlockFile, pruneOneUndoFile, setInfo_info]
  grind

-- The summary of a file is about all its blocks, and there is no undo data without a block.
def Summarised (s : BlockFiles) : Prop :=
  ∀ p, ((s.entry p).haveData → nHeight p ≤ (s.vinfoBlockFile (s.entry p).nFile).nHeightLast) ∧
    ((s.entry p).haveUndo → (s.entry p).haveData)

lemma Summarised.step (h : s.Summarised) (hs : Step s call s') : s'.Summarised := by
  cases hs
  case kept | unwritten => exact h
  all_goals
    intro q
    have hq := h q
  case entered he =>
    simp only [enterFile, setInfo_entry, setInfo_info]
    grind [he.grows]
  case saved he hd =>
    simp only [saved, enterFile, setEntry_entry, setEntry_info, setInfo_entry, setInfo_info]
    grind [he.grows, he.height]
  case counted =>
    simp only [counted, setInfo_entry, setInfo_info]
    grind
  case written =>
    simp only [written, counted, setEntry_entry, setEntry_info, setInfo_entry, setInfo_info]
    grind
  case prunedBlocks =>
    simp only [pruneOneBlockFile, setInfo_info]
    grind
  case prunedUndo =>
  simp only [pruneOneUndoFile, setInfo_info]
  grind

lemma summarised_run (h : run {} calls = some s) : s.Summarised :=
  run_rule (fun h _ hs => h.step hs)
    (by simp [Summarised]) (meets_true calls) h

def SameFlags (s s' : BlockFiles) (p : CBlockIndex) : Prop :=
  (s'.entry p).haveData = (s.entry p).haveData ∧ (s'.entry p).haveUndo = (s.entry p).haveUndo

-- The files that have been pruned had no block above a height.
structure Keeps (nHeightLast : Nat) (s s' : BlockFiles) : Prop where
  summarised : s'.Summarised
  flags p : nHeightLast < nHeight p → SameFlags s s' p

lemma Keeps.prune (h : Keeps n s s') (hn : (s'.vinfoBlockFile fileNumber).nHeightLast ≤ n) :
    Keeps n s (s'.pruneOneBlockFile fileNumber) where
  summarised := h.summarised.step .prunedBlocks
  flags p hp := by
    have hs := h.summarised p
    have hf := h.flags p hp
    simp only [SameFlags, pruneOneBlockFile] at hf ⊢
    grind

lemma Keeps.loop (h : Keeps n s s') :
    Keeps n s (pruneLoop n nBuffer nPruneTarget files nCurrentUsage s') := by
  induction files generalizing nCurrentUsage s'
  case nil => exact h
  case cons fileNumber files hi =>
  simp only [pruneLoop]
  split
  · exact hi h
  split
  · exact h
  split
  · exact hi h
  · exact hi (h.prune (by omega))

theorem findFilesToPrune_keeps (h : run {} calls = some s) (hl : MIN_BLOCKS_TO_KEEP ≤ nTip)
    (hu : nTip < 2 ^ 31) (hp : nTip - MIN_BLOCKS_TO_KEEP < nHeight p)
    (nManualPruneHeight nPruneTarget nPruneAfterHeight : Nat) (fInitialDownload : Bool) :
    SameFlags s (s.findFilesToPruneManual nTip nManualPruneHeight) p ∧
    SameFlags s (s.findFilesToPrune nTip nPruneTarget nPruneAfterHeight fInitialDownload) p := by
  have hk : Keeps (nTip - MIN_BLOCKS_TO_KEEP) s s := ⟨summarised_run h, fun _ _ => ⟨rfl, rfl⟩⟩
  have hn : nLastBlockWeCanPrune nTip = nTip - MIN_BLOCKS_TO_KEEP := by
    rw [nLastBlockWeCanPrune]
    omega
  constructor
  · refine Keeps.flags ?_ p hp
    refine foldlRecOn (motive := Keeps _ s) _ _ hk fun s1 h1 fileNumber _ => ?_
    rw [hn]
    dsimp only
    split
    · exact h1
    · exact h1.prune (by omega)
  refine Keeps.flags ?_ p hp
  simp only [findFilesToPrune, hn]
  split
  · exact hk
  · exact hk.loop

-- The records of a file, with headers and checksums, are disjoint and below its counters.
structure Apart (s : BlockFiles) : Prop where
  full nFile : (s.vinfoBlockFile nFile).nSize < MAX_BLOCKFILE_SIZE
  below p : (s.entry p).haveData → 8 ≤ (s.entry p).nDataPos ∧
    (s.entry p).nDataPos + (s.entry p).dataSize ≤ (s.vinfoBlockFile (s.entry p).nFile).nSize
  data p q : p ≠ q → (s.entry p).haveData → (s.entry q).haveData →
    (s.entry p).nFile = (s.entry q).nFile →
    (s.entry p).nDataPos + (s.entry p).dataSize ≤ (s.entry q).nDataPos - 8 ∨
    (s.entry q).nDataPos + (s.entry q).dataSize ≤ (s.entry p).nDataPos - 8
  belowUndo p : (s.entry p).haveUndo → (s.entry p).haveData ∧ 8 ≤ (s.entry p).nUndoPos ∧
    (s.entry p).nUndoPos + (s.entry p).undoSize + 32 ≤
      (s.vinfoBlockFile (s.entry p).nFile).nUndoSize
  undo p q : p ≠ q → (s.entry p).haveUndo → (s.entry q).haveUndo →
    (s.entry p).nFile = (s.entry q).nFile →
    (s.entry p).nUndoPos + (s.entry p).undoSize + 32 ≤ (s.entry q).nUndoPos - 8 ∨
    (s.entry q).nUndoPos + (s.entry q).undoSize + 32 ≤ (s.entry p).nUndoPos - 8

-- No known position, and no overflow of the counter of the undo file.
def Fits (s : BlockFiles) : FileCall → Prop
  | .save _ _ _ dbp _ => dbp = none
  | .undo p nUndoSize _ =>
    (s.vinfoBlockFile (s.entry p).nFile).nUndoSize + (nUndoSize + 40) < 2 ^ 32
  | _ => True

lemma Apart.step (h : s.Apart) (hf : s.Fits call) (hs : Step s call s') : s'.Apart := by
  have ⟨_, _, _, _, _⟩ := h
  cases hs
  case kept | unwritten => exact h
  case entered he =>
    have ⟨hu, _, _, _, hs, hr, _⟩ := he
    have hs := hs hf
    have hr := hr hf
    constructor <;> simp only [enterFile, setInfo_entry, setInfo_info] <;> grind
  case saved he hd =>
    have ⟨hu, _, _, hp, hs, hr, _⟩ := he
    have hp := hp hf
    have hs := hs hf
    have hr := hr hf
    constructor <;> simp only [saved, enterFile, setEntry_entry, setEntry_info, setInfo_entry,
      setInfo_info] <;> grind
  case counted =>
    have hf := Nat.mod_eq_of_lt hf
    constructor <;> simp only [counted, setInfo_entry, setInfo_info, hf] <;> grind
  case written hd hu =>
    have hf := Nat.mod_eq_of_lt hf
    constructor <;> simp only [written, counted, setEntry_entry, setEntry_info, setInfo_entry,
      setInfo_info, hf] <;> grind
  case prunedBlocks =>
    constructor <;> simp only [pruneOneBlockFile, setInfo_info] <;> grind [MAX_BLOCKFILE_SIZE]
  case prunedUndo => constructor <;> simp only [pruneOneUndoFile, setInfo_info] <;> grind

theorem apart_run (hf : Meets Fits calls {}) (h : run {} calls = some s) : s.Apart :=
  run_rule (fun h hf hs => h.step hf hs)
    (by constructor <;> simp [MAX_BLOCKFILE_SIZE]) hf h

-- No block is in an earlier file than its parent, which has data too.
def Ordered (s : BlockFiles) : Prop :=
  ∀ p, (s.entry p).haveData → (s.entry p).nFile ≤ s.nLastBlockFile ∧
    (p.tail ≠ [] → (s.entry p.tail).haveData ∧ (s.entry p.tail).nFile ≤ (s.entry p).nFile)

-- Blocks arrive after their parents, and no block file is pruned.
def InOrder (s : BlockFiles) : FileCall → Prop
  | .save p _ _ dbp _ => dbp = none ∧ (p.tail ≠ [] → (s.entry p.tail).haveData)
  | .pruneBlocks _ => False
  | _ => True

lemma Ordered.step (h : s.Ordered) (ho : s.InOrder call) (hs : Step s call s') : s'.Ordered := by
  cases hs
  case kept | unwritten => exact h
  case prunedBlocks => exact ho.elim
  all_goals
    intro q
    have hq := h q
  case entered he =>
    have := he.file ho.1
    simp only [enterFile, setInfo_entry]
    grind
  case saved p _ _ _ _ _ _ he hd =>
    have := he.file ho.1
    have := h p.tail
    have := ho.2
    have : p.tail = p → p = [] := fun ht => by cases p <;> simp at ht ⊢
    simp only [saved, enterFile, setEntry_entry, setInfo_entry]
    grind [setEntry, setInfo]
  case counted => exact hq
  case written =>
    simp only [written, counted, setEntry_entry, setInfo_entry]
    grind [setEntry, setInfo]
  case prunedUndo =>
  simp only [pruneOneUndoFile]
  grind [setInfo]

end Taler.BlockFiles

namespace Taler

open BlockFiles

section

def fileHeader (nHeight : Nat) : IndexHeader where
  hash := nHeight
  nVersion := 0
  hashMerkleRoot := 0
  nTime := 0
  nBits := 0
  nNonce := 0
  fProofOfStake := false

def fileChain : Nat → CBlockIndex
  | 0 => [fileHeader 0]
  | n + 1 => fileHeader (n + 1) :: fileChain n

def saveAt (nBlockSize n : Nat) : FileCall :=
  .save (fileChain n) 0 nBlockSize none true

def filedBlocks : List FileCall :=
  [saveAt 300 0, .undo (fileChain 0) 50 true, saveAt 200 1]

theorem findFilesToPrune_keeps_two : ∃ s, run {} filedBlocks = some s ∧
    SameFlags s (s.findFilesToPruneManual 288 10) (fileChain 1) := by
  have ⟨s, hs⟩ : ∃ s, run {} filedBlocks = some s := ⟨_, rfl⟩
  exact ⟨s, hs, (findFilesToPrune_keeps hs (by decide) (by decide) (by decide) 10 0 0 false).1⟩

theorem apart_run_two : ∃ s, run {} filedBlocks = some s ∧ s.Apart := by
  have hf : Meets Fits filedBlocks {} := by
    refine ⟨rfl, fun s hs => ⟨?_, fun _ _ => ⟨rfl, fun _ _ => trivial⟩⟩⟩
    cases hs
    rw [Fits]
    decide +kernel
  exact ⟨_, rfl, apart_run hf rfl⟩

def undoFlood : List FileCall :=
  (List.range 18).flatMap fun i => [saveAt 1000000 i, .undo (fileChain i) 240000000 true]

theorem undoFlood_not_apart : ∃ s, run {} undoFlood = some s ∧ ¬ s.Apart := by
  have hr : (run {} undoFlood).any fun s => (s.entry (fileChain 17)).haveUndo &&
      (s.vinfoBlockFile (s.entry (fileChain 17)).nFile).nUndoSize <
        (s.entry (fileChain 17)).nUndoPos := by
    decide +kernel
  cases hs : run {} undoFlood <;> rw [hs] at hr
  case none => nomatch hr
  case some s =>
  have ⟨hu, hl⟩ := Bool.and_eq_true_iff.1 hr
  refine ⟨s, rfl, fun h => ?_⟩
  have := h.belowUndo _ hu
  have := of_decide_eq_true hl
  omega

lemma fileChain_length (n) : (fileChain n).length = n + 1 := by
  induction n <;> simp_all [fileChain]

lemma fileChain_inj (h : fileChain m = fileChain n) : m = n := by
  simpa [fileChain_length] using congrArg List.length h

-- The blocks up to a height are there, and the files of the first ones are left behind.
structure Late (n : Nat) (s : BlockFiles) : Prop where
  blank : s.Blank
  last : 2 ≤ s.nLastBlockFile
  data i : i ≤ n → (s.entry (fileChain i)).haveData
  first : (s.entry (fileChain 32)).nFile = 1
  recent : (s.entry (fileChain 33)).nFile = 0 ∧ (s.entry (fileChain 33)).haveUndo
  undo : (s.vinfoBlockFile 0).nUndoSize ≠ 0

lemma Late.save (h : Late n s) (hn : 33 ≤ n) :
    ∃ s', s.step (saveAt 4000000 (n + 1)) = some s' ∧ Late (n + 1) s' := by
  have hroom : (s.findFile (4000000 + 8)).isSome := by
    rw [findFile, List.find?_isSome]
    refine ⟨s.nLastBlockFile + s.nFiles, by simp, ?_⟩
    rw [h.blank _ (by omega)]
    rfl
  have ⟨nFile, hf⟩ := Option.isSome_iff_exists.1 hroom
  have ⟨s', hs⟩ : ∃ s', s.step (saveAt 4000000 (n + 1)) = some s' := by
    simp only [step, saveAt, saveBlockToDisk, findBlockPos, hf]
    split <;> exact ⟨_, rfl⟩
  refine ⟨s', hs, ?_⟩
  have hne {i : Nat} (hi : i ≤ n) : fileChain i ≠ fileChain (n + 1) := fun he => by
    have := fileChain_inj he
    omega
  have ⟨_, _, _, _, _, _⟩ := h
  have h32 := hne (by omega : 32 ≤ n)
  have h33 := hne hn
  cases step_cases hs
  case kept hd => exact { h with data := fun i hi => by grind }
  case saved hd he =>
  have := he.file rfl
  have := he.undo
  refine ⟨h.blank.step (step_cases hs), ?_, ?_, ?_, ?_, ?_⟩ <;>
    simp only [saved, enterFile, setEntry_entry, setEntry_info, setInfo_entry, setInfo_info] <;>
    grind [setEntry]

end

end Taler
