import DeipChain.Lib.Result
import DeipChain.Lib.Words

/-!
# The block log and its index

Two append-only files. The log holds each packed block followed by the position at
which it starts, and the index holds the positions alone. `open` looks at the last
word of both files and rebuilds the index when they differ.

Packing is a parameter: a codec whose packed blocks delimit themselves. A read past
the end of a file, or a seek before its start, throws, because the streams are set
to throw on failure.
-/
namespace DeipChain.Chain.LogFiles

open DeipChain.Result DeipChain.Words

/-- `fc::raw::pack` and `fc::raw::unpack`: reading a packed block stops where it ends. -/
structure Codec (Block : Type) where
  pack : Block → List UInt8
  unpack : List UInt8 → Option (Block × List UInt8)
  unpack_pack : ∀ block rest, unpack (pack block ++ rest) = some (block, rest)

variable {Block : Type}

/-- `block_log_impl`, as far as the files and the cached head go. -/
structure Log (Block : Type) where
  blockFile : List UInt8
  indexFile : List UInt8
  head : Option Block

def streamFailure : String := "basic_ios::clear: iostream error"

/-- Reads a word at a position. -/
def readWord (file : List UInt8) (position : Nat) : Except String Nat := do
  require (position + 8 ≤ file.length) streamFailure
  return fromBytes ((file.drop position).take 8)

/-- Seeks eight bytes before the end and reads the word there. -/
def readLastWord (file : List UInt8) : Except String Nat := do
  require (8 ≤ file.length) streamFailure
  readWord file (file.length - 8)

/-- `read_block`: the block at a position and the position after its trailer. -/
def readBlock (codec : Codec Block) (file : List UInt8) (position : Nat) :
    Except String (Block × Nat) := do
  let (block, rest) ← expect (codec.unpack (file.drop position)) streamFailure
  return (block, file.length - rest.length + 8)

def readHead (codec : Codec Block) (file : List UInt8) : Except String Block := do
  let position ← readLastWord file
  let (block, _) ← readBlock codec file position
  return block

/-- The loop of `construct_index` over the stream of the log. Each round reads at
    least the eight bytes of a trailer, which bounds the number of rounds. -/
def scan (codec : Codec Block) (endPosition : Nat) :
    Nat → List UInt8 → Nat → List UInt8 → Except String (List UInt8)
  | fuel, stream, position, index =>
    if endPosition ≤ position then return index
    else match fuel with
      | 0 => throw streamFailure
      | fuel + 1 => do
        let (_, rest) ← expect (codec.unpack stream) streamFailure
        let position ← readWord rest 0
        scan codec endPosition fuel (rest.drop 8) position (index ++ word position)

def constructIndex (codec : Codec Block) (blockFile : List UInt8) : Except String (List UInt8) := do
  let endPosition ← readLastWord blockFile
  scan codec endPosition blockFile.length blockFile 0 []

/-- `open`, on the contents of the two files. -/
def openLog (codec : Codec Block) (blockFile indexFile : List UInt8) :
    Except String (Log Block) :=
  if blockFile ≠ [] then do
    let head ← readHead codec blockFile
    if indexFile ≠ [] then do
      let blockPosition ← readLastWord blockFile
      let indexPosition ← readLastWord indexFile
      if blockPosition < indexPosition then do
        let indexFile ← constructIndex codec blockFile
        return { blockFile, indexFile, head := some head }
      else if indexPosition < blockPosition then do
        let indexFile ← constructIndex codec blockFile
        return { blockFile, indexFile, head := some head }
      else return { blockFile, indexFile, head := some head }
    else do
      let indexFile ← constructIndex codec blockFile
      return { blockFile, indexFile, head := some head }
  else return { blockFile, indexFile := [], head := none }

/-- `append`. The block number is a parameter of the blocks; the subtraction is one of
    64-bit unsigned integers, which for the number 0 gives no position in a file. -/
def append (codec : Codec Block) (blockNum : Block → Nat) (log : Log Block) (block : Block) :
    Except String (Log Block) := do
  require ((log.indexFile.length : Int) = 8 * ((blockNum block : Int) - 1))
    "Append to index file occuring at wrong position."
  let position := log.blockFile.length
  return {
    blockFile := log.blockFile ++ codec.pack block ++ word position
    indexFile := log.indexFile ++ word position
    head := some block }

/-- `get_block_pos`. The number in the id of a block is the number of the block. -/
def getBlockPos (blockNum : Block → Nat) (log : Log Block) (number : Nat) :
    Except String (Option Nat) :=
  match log.head with
  | none => return none
  | some head =>
    if number ≤ blockNum head ∧ 0 < number then do
      let position ← readWord log.indexFile (8 * (number - 1))
      return some position
    else return none

def readBlockByNum (codec : Codec Block) (blockNum : Block → Nat) (log : Log Block)
    (number : Nat) : Except String (Option Block) := do
  match ← getBlockPos blockNum log number with
  | none => return none
  | some position => do
    let (block, _) ← readBlock codec log.blockFile position
    require (blockNum block = number) "Wrong block was read from block log."
    return some block

/-- Reads a count of blocks one after the other, each from where the last one ended. -/
def readBlocks (codec : Codec Block) (file : List UInt8) :
    Nat → Nat → Except String (List Block × Nat)
  | 0, position => return ([], position)
  | count + 1, position => do
    let (block, next) ← readBlock codec file position
    let (blocks, final) ← readBlocks codec file count next
    return (block :: blocks, final)

/-! ## What appending writes -/

/-- The log of blocks that starts at a position. -/
def layout (codec : Codec Block) : Nat → List Block → List UInt8
  | _, [] => []
  | start, block :: blocks =>
    codec.pack block ++ word start ++
      layout codec (start + (codec.pack block).length + 8) blocks

/-- The positions of these blocks. -/
def positions (codec : Codec Block) : Nat → List Block → List Nat
  | _, [] => []
  | start, block :: blocks =>
    start :: positions codec (start + (codec.pack block).length + 8) blocks

section Layout

variable (codec : Codec Block)

@[simp] theorem length_positions (start : Nat) (blocks : List Block) :
    (positions codec start blocks).length = blocks.length := by
  induction blocks generalizing start with
  | nil => rfl
  | cons block blocks hypothesis => rw [positions, List.length_cons, hypothesis, List.length_cons]

theorem layout_append (start : Nat) (first second : List Block) :
    layout codec start (first ++ second) =
      layout codec start first ++ layout codec (start + (layout codec start first).length) second := by
  induction first generalizing start with
  | nil => rfl
  | cons block blocks hypothesis =>
    simp only [List.cons_append, layout, hypothesis, List.append_assoc, List.length_append,
      length_word]
    congr 4
    omega

theorem positions_append (start : Nat) (first second : List Block) :
    positions codec start (first ++ second) =
      positions codec start first ++
        positions codec (start + (layout codec start first).length) second := by
  induction first generalizing start with
  | nil => rfl
  | cons block blocks hypothesis =>
    simp only [List.cons_append, positions, layout, hypothesis, List.length_append, length_word]
    congr 3
    omega

/-- Each block ends before the next one starts. -/
theorem lt_of_mem_positions {start position : Nat} {blocks : List Block}
    (member : position ∈ positions codec start blocks) : start ≤ position := by
  induction blocks generalizing start with
  | nil => cases member
  | cons block blocks hypothesis =>
    rcases List.mem_cons.mp member with rfl | later
    · exact Nat.le_refl _
    · have := hypothesis later
      omega

theorem getLast?_positions (start : Nat) (blocks : List Block) (block : Block) :
    (positions codec start (blocks ++ [block])).getLast? =
      some (start + (layout codec start blocks).length) := by
  rw [positions_append, positions, positions, List.getLast?_concat]

theorem getElem?_positions {blocks : List Block} {place : Nat} (inside : place < blocks.length) :
    (positions codec 0 blocks)[place]? = some (layout codec 0 (blocks.take place)).length := by
  have split : positions codec 0 blocks = positions codec 0 (blocks.take place) ++
      positions codec (0 + (layout codec 0 (blocks.take place)).length) (blocks.drop place) := by
    rw [← positions_append, List.take_append_drop]
  have taken : (positions codec 0 (blocks.take place)).length = place := by
    rw [length_positions, List.length_take]
    omega
  rw [split, List.getElem?_append_right (Nat.le_of_eq taken), taken, Nat.sub_self,
    List.drop_eq_getElem_cons inside, positions, Nat.zero_add]
  rfl

end Layout

/-! ## Reading back what was written -/

section Reading

variable (codec : Codec Block)

/-- A block is read at the position where it starts. -/
theorem readBlock_layout (before after : List Block) (block : Block) :
    readBlock codec (layout codec 0 (before ++ block :: after)) (layout codec 0 before).length =
      .ok (block, (layout codec 0 (before ++ [block])).length) := by
  simp only [readBlock, layout_append, layout, List.drop_left', List.append_assoc,
    codec.unpack_pack, expect, bind, Except.bind, pure, Except.pure, List.length_append, length_word,
    List.length_nil]
  congr 2
  omega

theorem readBlock_at {blocks : List Block} {place : Nat} {block : Block}
    (stored : blocks[place]? = some block) :
    readBlock codec (layout codec 0 blocks) (layout codec 0 (blocks.take place)).length =
      .ok (block, (layout codec 0 (blocks.take (place + 1))).length) := by
  obtain ⟨inside, same⟩ := List.getElem?_eq_some_iff.mp stored
  have split : blocks = blocks.take place ++ block :: blocks.drop (place + 1) := by
    rw [← same, ← List.drop_eq_getElem_cons inside, List.take_append_drop]
  have read := readBlock_layout codec (blocks.take place) (blocks.drop (place + 1)) block
  have grown : blocks.take (place + 1) = blocks.take place ++ [block] := by
    rw [← same, List.take_succ_eq_append_getElem inside]
  rw [← split] at read
  rw [grown]
  exact read

/-- Reading block after block from the start of a log gives the blocks. -/
theorem readBlocks_layout (before after : List Block) :
    readBlocks codec (layout codec 0 (before ++ after)) after.length (layout codec 0 before).length =
      .ok (after, (layout codec 0 (before ++ after)).length) := by
  induction after generalizing before with
  | nil =>
    rw [List.append_nil, List.length_nil, readBlocks]
    rfl
  | cons block after hypothesis =>
    have rest := hypothesis (before ++ [block])
    rw [List.append_assoc, List.singleton_append] at rest
    rw [List.length_cons, readBlocks, readBlock_layout]
    simp only [bind, Except.bind, rest, pure, Except.pure]

theorem readLastWord_eq {file : List UInt8} (long : 8 ≤ file.length) :
    readLastWord file = .ok (fromBytes ((file.drop (file.length - 8)).take 8)) := by
  simp only [readLastWord, readWord, require, bind, Except.bind, pure, Except.pure]
  rw [if_pos long, if_pos (by omega)]

/-- The last word of a log is the position of its last block. -/
theorem readLastWord_layout {blocks : List Block} (block : Block)
    (fits : (layout codec 0 blocks).length < 2 ^ 64) :
    readLastWord (layout codec 0 (blocks ++ [block])) = .ok (layout codec 0 blocks).length := by
  have split : layout codec 0 (blocks ++ [block]) =
      layout codec 0 blocks ++ codec.pack block ++ word (layout codec 0 blocks).length := by
    rw [layout_append, layout, layout, List.append_nil, Nat.zero_add, List.append_assoc]
  have size : (layout codec 0 (blocks ++ [block])).length =
      (layout codec 0 blocks ++ codec.pack block).length + 8 := by
    rw [split, List.length_append, length_word]
  have start : (layout codec 0 (blocks ++ [block])).length - 8 =
      (layout codec 0 blocks ++ codec.pack block).length := by omega
  have read : fromBytes (((layout codec 0 (blocks ++ [block])).drop
      (layout codec 0 blocks ++ codec.pack block).length).take 8) =
      (layout codec 0 blocks).length := by
    rw [split, List.drop_left, List.take_of_length_le (Nat.le_of_eq (length_word _)),
      fromBytes_word fits]
  rw [readLastWord_eq (by omega), start, read]

theorem scan_done {endPosition fuel position : Nat} {stream index : List UInt8}
    (reached : endPosition ≤ position) :
    scan codec endPosition fuel stream position index = .ok index := by
  unfold scan
  rw [if_pos reached]
  rfl

/-- The scan writes the positions of all blocks that are left, once it has not passed
    the position of the last one.

Proof: by induction on the blocks. A round reads one block and then its position,
which is below the last position unless the block is the last one. -/
theorem scan_layout {endPosition : Nat} {blocks : List Block} {fuel start position : Nat}
    {index : List UInt8} (last : (positions codec start blocks).getLast? = some endPosition)
    (before : position < endPosition) (fits : endPosition < 2 ^ 64) (enough : blocks.length ≤ fuel) :
    scan codec endPosition fuel (layout codec start blocks) position index =
      .ok (index ++ words (positions codec start blocks)) := by
  induction blocks generalizing fuel start position index with
  | nil => simp [positions] at last
  | cons block blocks hypothesis =>
    obtain ⟨fuel, rfl⟩ : ∃ less, fuel = less + 1 := ⟨fuel - 1, by simp at enough; omega⟩
    have reaches : start ≤ endPosition :=
      lt_of_mem_positions codec (List.mem_of_getLast? last)
    have trailer (rest : List UInt8) : readWord (word start ++ rest) 0 = .ok start := by
      have read : fromBytes (((word start ++ rest).drop 0).take 8) = start := by
        rw [List.drop_zero, List.take_left' (length_word start), fromBytes_word (by omega)]
      simp only [readWord, read, require, bind, Except.bind, pure, Except.pure]
      rw [if_pos (by simp)]
    have round : scan codec endPosition (fuel + 1) (layout codec start (block :: blocks)) position
        index = scan codec endPosition fuel
          (layout codec (start + (codec.pack block).length + 8) blocks) start
          (index ++ word start) := by
      rw [scan, if_neg (by omega)]
      simp only [layout, List.append_assoc, codec.unpack_pack, expect, trailer, bind, Except.bind,
        List.drop_left' (length_word start)]
    rw [round]
    cases blocks with
    | nil =>
      have final : start = endPosition := by simpa [positions] using last
      rw [scan_done codec (Nat.le_of_eq final.symm), positions, positions, words_cons, words_nil,
        List.append_nil]
    | cons next rest =>
      have later : (positions codec (start + (codec.pack block).length + 8)
          (next :: rest)).getLast? = some endPosition := by
        rw [positions, positions, List.getLast?_cons_cons] at last
        exact last
      have passed := lt_of_mem_positions codec (List.mem_of_getLast? later)
      rw [hypothesis later (by omega) (by simp at enough ⊢; omega)]
      simp only [positions, words_cons, List.append_assoc]

theorem length_le_layout (start : Nat) (blocks : List Block) :
    blocks.length ≤ (layout codec start blocks).length := by
  induction blocks generalizing start with
  | nil => exact Nat.zero_le _
  | cons block blocks hypothesis =>
    have := hypothesis (start + (codec.pack block).length + 8)
    simp only [layout, List.length_cons, List.length_append, length_word]
    omega

/-- Rebuilding the index of a log gives the index that appending wrote, unless the log
    has a single block: the loop stops at the position of the last block, which is
    where it starts. -/
theorem constructIndex_layout {blocks : List Block} (block : Block)
    (fits : (layout codec 0 blocks).length < 2 ^ 64) :
    constructIndex codec (layout codec 0 (blocks ++ [block])) =
      .ok (if blocks = [] then [] else words (positions codec 0 (blocks ++ [block]))) := by
  rw [constructIndex, readLastWord_layout codec block fits]
  simp only [bind, Except.bind]
  by_cases lone : blocks = []
  · subst lone
    exact scan_done codec (Nat.le_refl 0)
  · have last := getLast?_positions codec 0 blocks block
    rw [Nat.zero_add] at last
    have positive := length_le_layout codec 0 blocks
    have nonempty := List.length_pos_of_ne_nil lone
    rw [if_neg lone, scan_layout codec last (by omega) fits (length_le_layout codec 0 _),
      List.nil_append]

end Reading

/-! ## Opening a log -/

section Opening

variable (codec : Codec Block) (blockNum : Block → Nat)

/-- The log that a node starts with. -/
def fresh : Log Block :=
  { blockFile := [], indexFile := [], head := none }

def appendAll (blocks : List Block) : Except String (Log Block) :=
  blocks.foldlM (append codec blockNum) fresh

/-- What appending the blocks leaves: their layout, their positions, the last of them as
    the head, and consecutive numbers. -/
structure Appended (blocks : List Block) (log : Log Block) : Prop where
  blockFile : log.blockFile = layout codec 0 blocks
  indexFile : log.indexFile = words (positions codec 0 blocks)
  head : log.head = blocks.getLast?
  numbered : ∀ place block, blocks[place]? = some block → blockNum block = place + 1

theorem append_appended {blocks : List Block} {block : Block} {log next : Log Block}
    (appended : Appended codec blockNum blocks log)
    (written : append codec blockNum log block = .ok next) :
    Appended codec blockNum (blocks ++ [block]) next := by
  simp only [append, bind_ok_iff, require_ok_iff, pure_ok_iff] at written
  obtain ⟨_, placed, rfl⟩ := written
  have number : blockNum block = blocks.length + 1 := by
    rw [appended.indexFile, length_words, length_positions] at placed
    omega
  refine ⟨?_, ?_, ?_, ?_⟩
  · dsimp only
    rw [appended.blockFile, layout_append, layout, layout, List.append_nil, Nat.zero_add,
      List.append_assoc]
  · dsimp only
    rw [appended.indexFile, appended.blockFile, positions_append, words_append, positions, positions,
      words_cons, words_nil, List.append_nil, Nat.zero_add]
  · exact List.getLast?_concat.symm
  · intro place other stored
    by_cases old : place < blocks.length
    · rw [List.getElem?_append_left old] at stored
      exact appended.numbered place other stored
    · obtain ⟨inside, _⟩ := List.getElem?_eq_some_iff.mp stored
      have last : place = blocks.length := by
        simp at inside
        omega
      rw [last, List.getElem?_concat_length, Option.some_inj] at stored
      rw [← stored, number, last]

theorem appendAll_appended {blocks : List Block} {log : Log Block}
    (written : appendAll codec blockNum blocks = .ok log) : Appended codec blockNum blocks log := by
  have run : ∀ rest done start, Appended codec blockNum done start →
      rest.foldlM (append codec blockNum) start = .ok log →
      Appended codec blockNum (done ++ rest) log := by
    intro rest
    induction rest with
    | nil =>
      intro done start appended finished
      rw [List.foldlM_nil, pure_ok_iff] at finished
      rw [List.append_nil]
      exact finished ▸ appended
    | cons block rest hypothesis =>
      intro done start appended finished
      rw [List.foldlM_cons, bind_ok_iff] at finished
      obtain ⟨next, stepped, remaining⟩ := finished
      have longer := hypothesis (done ++ [block]) next
        (append_appended codec blockNum appended stepped) remaining
      rw [List.append_assoc, List.singleton_append] at longer
      exact longer
  exact run blocks [] fresh ⟨rfl, rfl, rfl, fun _ _ stored => by simp at stored⟩ written

/-- The written index ends with the position of the last block. -/
theorem Appended.indexFile_lastWord {before : List Block} {last : Block} {log : Log Block}
    (appended : Appended codec blockNum (before ++ [last]) log)
    (fits : (layout codec 0 before).length < 2 ^ 64) :
    8 ≤ log.indexFile.length ∧
      fromBytes ((log.indexFile.drop (log.indexFile.length - 8)).take 8) =
        (layout codec 0 before).length := by
  have size : log.indexFile.length = 8 * before.length + 8 := by
    rw [appended.indexFile, length_words, length_positions, List.length_append,
      List.length_singleton, Nat.mul_add]
  have slice := words_slice (getElem?_positions codec
    (show before.length < (before ++ [last]).length by simp))
  rw [List.take_left] at slice
  refine ⟨by omega, ?_⟩
  rw [size, Nat.add_sub_cancel, appended.indexFile, slice, fromBytes_word fits]

/-- The claim of a block log on its two files: every block is read by its number, the
    blocks are read in order from the start, the head is the last of them, the next
    block can be appended, and the index is the one that appending wrote. -/
structure Restored (blocks : List Block) (written log : Log Block) : Prop where
  byNumber : ∀ place block, blocks[place]? = some block →
    readBlockByNum codec blockNum log (place + 1) = .ok (some block)
  inOrder : readBlocks codec log.blockFile blocks.length 0 = .ok (blocks, log.blockFile.length)
  head : log.head = blocks.getLast?
  next : ∀ block, blockNum block = blocks.length + 1 →
    ∃ longer, append codec blockNum log block = .ok longer
  index : log.indexFile = written.indexFile

/-- A log with the files that appending wrote has all that is claimed of it. -/
theorem appended_restored {blocks : List Block} {log : Log Block}
    (fits : log.blockFile.length < 2 ^ 64) (appended : Appended codec blockNum blocks log) :
    Restored codec blockNum blocks log log := by
  refine ⟨?_, ?_, appended.head, ?_, rfl⟩
  · intro place block stored
    obtain ⟨inside, _⟩ := List.getElem?_eq_some_iff.mp stored
    obtain ⟨last, isLast⟩ : ∃ last, blocks.getLast? = some last :=
      Option.isSome_iff_exists.mp (by simp [List.getLast?_isSome]; rintro rfl; simp at inside)
    have count : blockNum last = blocks.length := by
      rw [List.getLast?_eq_getElem?] at isLast
      have := appended.numbered _ last isLast
      omega
    have position : readWord log.indexFile (8 * place) =
        .ok (layout codec 0 (blocks.take place)).length := by
      have slice := words_slice (getElem?_positions codec inside)
      have short : (layout codec 0 (blocks.take place)).length < 2 ^ 64 := by
        have split := layout_append codec 0 (blocks.take place) (blocks.drop place)
        rw [List.take_append_drop] at split
        rw [appended.blockFile, split, List.length_append] at fits
        omega
      simp only [readWord, appended.indexFile, slice, fromBytes_word short, require, bind,
        Except.bind, pure, Except.pure, length_words, length_positions]
      rw [if_pos (by omega)]
    have read := readBlock_at codec stored
    have number := appended.numbered place block stored
    have got : getBlockPos blockNum log (place + 1) =
        .ok (some (layout codec 0 (blocks.take place)).length) := by
      simp only [getBlockPos, appended.head, isLast, count, Nat.add_sub_cancel, position, bind,
        Except.bind, pure, Except.pure]
      rw [if_pos (by omega)]
    simp only [readBlockByNum, got, appended.blockFile, read, number, require, bind, Except.bind,
      pure, Except.pure, if_true]
  · rw [appended.blockFile]
    exact readBlocks_layout codec [] blocks
  · intro block number
    refine ⟨_, bind_ok_iff.mpr ⟨⟨⟩, require_ok_iff.mpr ?_, rfl⟩⟩
    rw [appended.indexFile, length_words, length_positions, number]
    omega

/-- What `open` makes of the two files: the index is kept if its last word is the
    position of the last block, rebuilt if it is another or there is none, and a few
    bytes that are no word make it throw. -/
theorem openLog_layout {blocks : List Block} {block : Block} {indexFile : List UInt8}
    (fits : (layout codec 0 blocks).length < 2 ^ 64) :
    openLog codec (layout codec 0 (blocks ++ [block])) indexFile =
      if indexFile = [] then
        .ok ⟨layout codec 0 (blocks ++ [block]),
          if blocks = [] then [] else words (positions codec 0 (blocks ++ [block])), some block⟩
      else if indexFile.length < 8 then .error streamFailure
      else if fromBytes ((indexFile.drop (indexFile.length - 8)).take 8) =
          (layout codec 0 blocks).length then
        .ok ⟨layout codec 0 (blocks ++ [block]), indexFile, some block⟩
      else
        .ok ⟨layout codec 0 (blocks ++ [block]),
          if blocks = [] then [] else words (positions codec 0 (blocks ++ [block])), some block⟩ := by
  have nonempty : layout codec 0 (blocks ++ [block]) ≠ [] := by
    have := length_le_layout codec 0 (blocks ++ [block])
    intro empty
    simp [empty] at this
  have lastBlock := readLastWord_layout codec block fits
  have head : readHead codec (layout codec 0 (blocks ++ [block])) = .ok block := by
    simp only [readHead, lastBlock, readBlock_layout codec blocks [] block, bind, Except.bind, pure,
      Except.pure]
  have rebuilt := constructIndex_layout codec block fits
  simp only [openLog, ne_eq, nonempty, not_false_eq_true, if_true, head, lastBlock, rebuilt, bind,
    Except.bind, pure, Except.pure]
  by_cases empty : indexFile = []
  · simp only [empty, not_true_eq_false, if_false, if_true]
  · simp only [empty, not_false_eq_true, if_true, if_false, readLastWord, readWord, require, bind,
      Except.bind, pure, Except.pure]
    by_cases short : indexFile.length < 8
    · rw [if_neg (by omega), if_pos short]
    · rw [if_pos (by omega), if_neg short]
      dsimp only
      rw [if_pos (by omega)]
      dsimp only
      generalize fromBytes ((indexFile.drop (indexFile.length - 8)).take 8) = indexPosition
      by_cases same : indexPosition = (layout codec 0 blocks).length
      · simp only [same, Nat.lt_irrefl, if_false, if_true]
      · rw [if_neg same]
        by_cases above : (layout codec 0 blocks).length < indexPosition
        · rw [if_pos above]
        · rw [if_neg above, if_pos (by omega)]

/-- Opening a log whose index file is a part or an extension of the index that
    appending wrote restores the log exactly when the index is the written one, or
    there are two blocks or more and `open` sees that the index is not complete: the
    file is empty, or its last word is not the position of the last block. -/
theorem open_restores_iff {blocks : List Block} {written : Log Block} (indexFile : List UInt8)
    (nonempty : blocks ≠ []) (appended : appendAll codec blockNum blocks = .ok written)
    (fits : written.blockFile.length < 2 ^ 64) :
    (∃ log, openLog codec written.blockFile indexFile = .ok log ∧
      Restored codec blockNum blocks written log) ↔
    indexFile = written.indexFile ∨
      (2 ≤ blocks.length ∧ (indexFile = [] ∨ (8 ≤ indexFile.length ∧
        readLastWord indexFile ≠ readLastWord written.blockFile))) := by
  have files := appendAll_appended codec blockNum appended
  obtain ⟨before, last, rfl⟩ : ∃ before last, blocks = before ++ [last] :=
    ⟨blocks.dropLast, blocks.getLast nonempty, (List.dropLast_append_getLast nonempty).symm⟩
  have size : (layout codec 0 (before ++ [last])).length =
      (layout codec 0 before).length + (codec.pack last).length + 8 := by
    rw [layout_append, List.length_append, layout, layout, List.append_nil, List.length_append,
      length_word, Nat.add_assoc]
  have short : (layout codec 0 before).length < 2 ^ 64 := by
    rw [files.blockFile] at fits
    omega
  have stored : written.indexFile ≠ [] := by
    intro empty
    have counted : (words (positions codec 0 (before ++ [last]))).length = 0 := by
      rw [← files.indexFile, empty, List.length_nil]
    simp at counted
  have rebuilt : Restored codec blockNum (before ++ [last]) written
      ⟨layout codec 0 (before ++ [last]),
        if before = [] then [] else words (positions codec 0 (before ++ [last])), some last⟩ ↔
      before ≠ [] := by
    constructor
    · intro restored lone
      exact stored (by rw [← restored.index, if_pos lone])
    · intro long
      have same : (⟨layout codec 0 (before ++ [last]),
          if before = [] then [] else words (positions codec 0 (before ++ [last])), some last⟩ :
          Log Block) = written := by
        rw [if_neg long, ← files.blockFile, ← files.indexFile, ← List.getLast?_concat (l := before),
          ← files.head]
      rw [same]
      exact appended_restored codec blockNum fits files
  have kept : Restored codec blockNum (before ++ [last]) written
      ⟨layout codec 0 (before ++ [last]), indexFile, some last⟩ ↔
      indexFile = written.indexFile := by
    constructor
    · intro restored
      exact restored.index
    · intro same
      rw [same, ← files.blockFile, ← List.getLast?_concat (l := before), ← files.head]
      exact appended_restored codec blockNum fits files
  have count : 2 ≤ (before ++ [last]).length ↔ before ≠ [] := by
    rw [List.length_append, ← List.length_pos_iff]
    simp
    omega
  have lastBlock := readLastWord_layout codec last short
  have indexed := files.indexFile_lastWord codec blockNum short
  rw [count, files.blockFile, openLog_layout codec short, lastBlock]
  by_cases empty : indexFile = []
  · simp only [empty, if_true, Except.ok.injEq, exists_eq_left', rebuilt, Ne.symm stored, true_or,
      and_true, false_or]
  rw [if_neg empty]
  by_cases small : indexFile.length < 8
  · have other : indexFile ≠ written.indexFile := by
      rintro rfl
      omega
    rw [if_pos small]
    simp only [other, empty, Nat.not_le.mpr small, false_and, or_false, and_false, reduceCtorEq,
      exists_false]
  rw [if_neg small, readLastWord_eq (Nat.not_lt.mp small)]
  by_cases same : fromBytes ((indexFile.drop (indexFile.length - 8)).take 8) =
      (layout codec 0 before).length
  · rw [if_pos same, same]
    simp only [Except.ok.injEq, exists_eq_left', kept, empty, ne_eq, not_true_eq_false, and_false,
      or_false]
  · have other : indexFile ≠ written.indexFile := by
      rintro rfl
      exact same indexed.2
    rw [if_neg same]
    simp only [Except.ok.injEq, exists_eq_left', rebuilt, other, empty, Nat.not_lt.mp small, same,
      ne_eq, not_false_eq_true, and_true, or_true, false_or]

end Opening

/-! ## A log of one block and a log of two -/

/-- A block of a fixed size: its number and a byte of content. -/
structure SmallBlock where
  number : UInt8
  content : UInt8
deriving DecidableEq, Repr

namespace SmallBlock

def codec : Codec SmallBlock where
  pack block := [block.number, block.content]
  unpack
    | number :: content :: rest => some (⟨number, content⟩, rest)
    | _ => none
  unpack_pack _ _ := rfl

def blockNum (block : SmallBlock) : Nat :=
  block.number.toNat

def one : SmallBlock := ⟨1, 7⟩

def two : SmallBlock := ⟨2, 9⟩

/-- The files of the two blocks. -/
def pairFiles : Log SmallBlock where
  blockFile := [1, 7] ++ word 0 ++ [2, 9] ++ word 10
  indexFile := word 0 ++ word 10
  head := some two

/-- Only the first word of the index of two blocks is there: it is rebuilt. -/
theorem open_truncated_pair_restores :
    ∃ log, openLog codec pairFiles.blockFile (word 0) = .ok log ∧
      Restored codec blockNum [one, two] pairFiles log := by
  have appended : appendAll codec blockNum [one, two] = .ok pairFiles := by rfl
  refine (open_restores_iff codec blockNum (word 0) (by simp) appended (by decide)).mpr (.inr ?_)
  refine ⟨by decide, .inr ⟨by decide, ?_⟩⟩
  have index : readLastWord (word 0) = .ok 0 := by rfl
  have file : readLastWord pairFiles.blockFile = .ok 10 := by rfl
  rw [index, file]
  simp

/-- The index of a log of one block is not rebuilt: the block cannot be read by its
    number. -/
theorem open_lone_block_fails :
    ¬ ∀ indexFile : List UInt8, indexFile <+: word 0 →
      ∃ log, openLog codec ([1, 7] ++ word 0) indexFile = .ok log ∧
        Restored codec blockNum [one] ⟨[1, 7] ++ word 0, word 0, some one⟩ log := by
  intro claim
  obtain ⟨log, opened, restored⟩ := claim [] List.nil_prefix
  have bare : openLog codec ([1, 7] ++ word 0) [] = .ok ⟨[1, 7] ++ word 0, [], some one⟩ := by rfl
  rw [bare, Except.ok.injEq] at opened
  have read := restored.byNumber 0 one rfl
  rw [← opened] at read
  have thrown : readBlockByNum codec blockNum ⟨[1, 7] ++ word 0, [], some one⟩ 1 =
      .error streamFailure := by rfl
  rw [thrown] at read
  cases read

end SmallBlock

end DeipChain.Chain.LogFiles
