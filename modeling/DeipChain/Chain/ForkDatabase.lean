import DeipChain.Chain.History

/-!
# The fork database

`fork_database` caches the blocks of every branch above the last irreversible one. An
item holds a weak pointer to the item of its previous block, so the link can be
followed only while that very item is still held: by the index, as the head, or by a
local pointer of the running call. Items are told apart by a serial number, a weak
pointer is the serial number it was made from, and `pinned` are the items that only the
running call holds.

The members `_unlinked_index` and `invalid` are never written by the node and are left
out.
-/
namespace DeipChain.Chain

variable {Id Tx H : Type}

/-- `fork_item` -/
structure ForkItem (Id Tx H : Type) where
  serial : Nat
  block : Block Id Tx H
  prev : Option Nat
  deriving DecidableEq

/-- `fork_database` -/
structure ForkDatabase (Id Tx H : Type) where
  index : List (ForkItem Id Tx H)
  head : Option (ForkItem Id Tx H)
  maxSize : Nat
  nextSerial : Nat
  pinned : List (ForkItem Id Tx H)
  deriving DecidableEq

namespace ForkDatabase

/-- A fork database as constructed. -/
def empty : ForkDatabase Id Tx H :=
  { index := [], head := none, maxSize := 1024, nextSerial := 0, pinned := [] }

/-- The items some pointer keeps alive. -/
def alive (forkDb : ForkDatabase Id Tx H) : List (ForkItem Id Tx H) :=
  forkDb.index ++ forkDb.head.toList ++ forkDb.pinned

/-- `prev.lock()` -/
def lock (forkDb : ForkDatabase Id Tx H) (item : ForkItem Id Tx H) : Option (ForkItem Id Tx H) :=
  item.prev.bind (fun serial => forkDb.alive.find? (fun other => other.serial = serial))

/-- `set_head` -/
def setHead (item : ForkItem Id Tx H) (forkDb : ForkDatabase Id Tx H) : ForkDatabase Id Tx H :=
  { forkDb with head := some item }

/-- Hold items by local pointers of the running call. -/
def pin (items : List (ForkItem Id Tx H)) (forkDb : ForkDatabase Id Tx H) : ForkDatabase Id Tx H :=
  { forkDb with pinned := items }

/-- `pop_block` -/
def popBlock (forkDb : ForkDatabase Id Tx H) : Except ChainError (ForkDatabase Id Tx H) :=
  match forkDb.head with
  | none => .error .popEmptyForkDb
  | some head =>
    match forkDb.lock head with
    | none => .error .popEmptyForkDb
    | some prev => .ok (forkDb.setHead prev)

variable (hashing : Hashing Id Tx H)

/-- `fetch_block_by_number` -/
def fetchBlockByNumber (num : Nat) (forkDb : ForkDatabase Id Tx H) : List (ForkItem Id Tx H) :=
  forkDb.index.filter (fun item => hashing.num item.block = num)

/-- The descent of `walk_main_branch_to_num`. -/
def walkFrom (forkDb : ForkDatabase Id Tx H) (num : Nat) :
    Nat → ForkItem Id Tx H → Option (ForkItem Id Tx H)
  | 0, item => if hashing.num item.block > num then none else some item
  | fuel + 1, item =>
    if hashing.num item.block > num then
      (forkDb.lock item).bind (walkFrom forkDb num fuel)
    else some item

/-- `walk_main_branch_to_num` -/
def walkMainBranchToNum (num : Nat) (forkDb : ForkDatabase Id Tx H) :
    Option (ForkItem Id Tx H) :=
  forkDb.head.bind (fun head =>
    if num > hashing.num head.block then none
    else walkFrom hashing forkDb num (hashing.num head.block) head)

/-- `fetch_block_on_main_branch_by_number` -/
def fetchBlockOnMainBranchByNumber (num : Nat) (forkDb : ForkDatabase Id Tx H) :
    Option (ForkItem Id Tx H) :=
  match forkDb.fetchBlockByNumber hashing num with
  | [item] => some item
  | [] => none
  | _ => forkDb.walkMainBranchToNum hashing num

/-- `set_max_size` -/
def setMaxSize (size : Nat) (forkDb : ForkDatabase Id Tx H) : ForkDatabase Id Tx H :=
  match forkDb.head with
  | none => { forkDb with maxSize := size }
  | some head =>
    { forkDb with
      maxSize := size
      index := forkDb.index.filter (fun item =>
        hashing.num head.block - size ≤ hashing.num item.block) }

variable [DecidableEq Id]

/-- `fetch_block` -/
def fetchBlock (id : Id) (forkDb : ForkDatabase Id Tx H) : Option (ForkItem Id Tx H) :=
  forkDb.index.find? (fun item => hashing.id item.block = id)

/-- `remove` -/
def remove (id : Id) (forkDb : ForkDatabase Id Tx H) : ForkDatabase Id Tx H :=
  { forkDb with index := forkDb.index.filter (fun item => hashing.id item.block ≠ id) }

/-- The loop that removes a failed block and the rest of its branch. -/
def removeItems (items : List (ForkItem Id Tx H)) (forkDb : ForkDatabase Id Tx H) :
    ForkDatabase Id Tx H :=
  items.foldl (fun remaining item => remaining.remove hashing (hashing.id item.block)) forkDb

/-- The insertion of `_push_block`: an id that is in the index is not inserted again,
but the item can become the head all the same. -/
def insertItem (item : ForkItem Id Tx H) (forkDb : ForkDatabase Id Tx H) :
    ForkDatabase Id Tx H :=
  { forkDb with
    index :=
      if (forkDb.fetchBlock hashing (hashing.id item.block)).isSome then forkDb.index
      else forkDb.index ++ [item]
    head :=
      match forkDb.head with
      | none => some item
      | some head =>
        if hashing.num item.block > hashing.num head.block then some item else some head
    nextSerial := forkDb.nextSerial + 1 }

/-- `push_block`, up to the head it returns. -/
def pushBlock (block : Block Id Tx H) (forkDb : ForkDatabase Id Tx H) :
    Except ChainError (ForkDatabase Id Tx H) :=
  match forkDb.head with
  | none => .ok (forkDb.insertItem hashing ⟨forkDb.nextSerial, block, none⟩)
  | some head =>
    if hashing.num block ≤ hashing.num head.block - forkDb.maxSize then .error .tooOld
    else if block.previous = hashing.null then
      .ok (forkDb.insertItem hashing ⟨forkDb.nextSerial, block, none⟩)
    else
      match forkDb.fetchBlock hashing block.previous with
      | none => .error .unlinkable
      | some prev =>
        .ok (forkDb.insertItem hashing ⟨forkDb.nextSerial, block, some prev.serial⟩)

/-- The first two loops of `fetch_branch_from`: the items above a height, and the one
reached there. -/
def descend (forkDb : ForkDatabase Id Tx H) (num : Nat) :
    Nat → ForkItem Id Tx H → Option (List (ForkItem Id Tx H) × ForkItem Id Tx H)
  | 0, item => if hashing.num item.block > num then none else some ([], item)
  | fuel + 1, item =>
    if hashing.num item.block > num then
      (forkDb.lock item).bind (fun prev =>
        (descend forkDb num fuel prev).map (fun rest => (item :: rest.1, rest.2)))
    else some ([], item)

/-- The last loop of `fetch_branch_from`: two items of one height down to a common
previous block. -/
def meet (forkDb : ForkDatabase Id Tx H) :
    Nat → ForkItem Id Tx H → ForkItem Id Tx H →
      Option (List (ForkItem Id Tx H) × List (ForkItem Id Tx H))
  | 0, first, second =>
    if first.block.previous = second.block.previous then some ([first], [second]) else none
  | fuel + 1, first, second =>
    if first.block.previous = second.block.previous then some ([first], [second])
    else
      (forkDb.lock first).bind (fun firstPrev =>
        (forkDb.lock second).bind (fun secondPrev =>
          (meet forkDb fuel firstPrev secondPrev).map (fun rest =>
            (first :: rest.1, second :: rest.2))))

/-- `fetch_branch_from`: the branches of two blocks, newest first, down to a common
previous block. -/
def fetchBranchFrom (first second : Id) (forkDb : ForkDatabase Id Tx H) :
    Option (List (ForkItem Id Tx H) × List (ForkItem Id Tx H)) := do
  let firstTop ← forkDb.fetchBlock hashing first
  let secondTop ← forkDb.fetchBlock hashing second
  let (firstUpper, firstItem) ← descend hashing forkDb (hashing.num secondTop.block)
    (hashing.num firstTop.block) firstTop
  let (secondUpper, secondItem) ← descend hashing forkDb (hashing.num firstItem.block)
    (hashing.num secondTop.block) secondTop
  let (firstLower, secondLower) ← meet forkDb (hashing.num firstItem.block) firstItem secondItem
  return (firstUpper ++ firstLower, secondUpper ++ secondLower)

variable {hashing} {forkDb : ForkDatabase Id Tx H}

/-- The fork database has a head once a block is in it. -/
theorem pushBlock_head {block : Block Id Tx H} {pushed : ForkDatabase Id Tx H}
    (done : forkDb.pushBlock hashing block = .ok pushed) : ∃ newHead, pushed.head = some newHead := by
  have inserted : ∀ item : ForkItem Id Tx H,
      ∃ newHead, (forkDb.insertItem hashing item).head = some newHead := by
    intro item
    unfold insertItem
    dsimp only
    split
    · exact ⟨_, rfl⟩
    · split <;> exact ⟨_, rfl⟩
  unfold pushBlock at done
  split at done
  · exact Except.ok.inj done ▸ inserted _
  · split at done
    · cases done
    · split at done
      · exact Except.ok.inj done ▸ inserted _
      · split at done
        · cases done
        · exact Except.ok.inj done ▸ inserted _

theorem fetchBlock_id {id : Id} {item : ForkItem Id Tx H}
    (found : forkDb.fetchBlock hashing id = some item) :
    hashing.id item.block = id ∧ item ∈ forkDb.index :=
  ⟨by simpa using List.find?_some found, List.mem_of_find?_eq_some found⟩

omit [DecidableEq Id] in
/-- A descent starts with the item it is given. -/
theorem descend_head {num fuel : Nat} {item last : ForkItem Id Tx H}
    {upper : List (ForkItem Id Tx H)}
    (done : descend hashing forkDb num fuel item = some (upper, last)) :
    (upper = [] ∧ last = item) ∨ ∃ rest, upper = item :: rest := by
  cases fuel with
  | zero =>
    unfold descend at done
    split at done
    · cases done
    · cases done
      exact .inl ⟨rfl, rfl⟩
  | succ fuel =>
    unfold descend at done
    split at done
    · obtain ⟨prev, _, further⟩ := Option.bind_eq_some_iff.mp done
      obtain ⟨rest, _, same⟩ := Option.map_eq_some_iff.mp further
      cases same
      exact .inr ⟨rest.1, rfl⟩
    · cases done
      exact .inl ⟨rfl, rfl⟩

/-- Two branches that meet start with the items they are given. -/
theorem meet_head {fuel : Nat} {first second : ForkItem Id Tx H}
    {firstLower secondLower : List (ForkItem Id Tx H)}
    (done : meet forkDb fuel first second = some (firstLower, secondLower)) :
    (∃ rest, firstLower = first :: rest) ∧ ∃ rest, secondLower = second :: rest := by
  cases fuel with
  | zero =>
    unfold meet at done
    split at done
    · cases done
      exact ⟨⟨_, rfl⟩, _, rfl⟩
    · cases done
  | succ fuel =>
    unfold meet at done
    split at done
    · cases done
      exact ⟨⟨_, rfl⟩, _, rfl⟩
    · obtain ⟨firstPrev, _, further⟩ := Option.bind_eq_some_iff.mp done
      obtain ⟨secondPrev, _, further⟩ := Option.bind_eq_some_iff.mp further
      obtain ⟨rest, _, same⟩ := Option.map_eq_some_iff.mp further
      cases same
      exact ⟨⟨_, rfl⟩, _, rfl⟩

/-- What the branches of two blocks are made of. -/
theorem fetchBranchFrom_parts {first second : Id}
    {firstBranch secondBranch : List (ForkItem Id Tx H)}
    (done : forkDb.fetchBranchFrom hashing first second = some (firstBranch, secondBranch)) :
    ∃ firstTop secondTop firstUpper firstItem secondUpper secondItem firstLower secondLower,
      forkDb.fetchBlock hashing first = some firstTop ∧
      forkDb.fetchBlock hashing second = some secondTop ∧
      descend hashing forkDb (hashing.num secondTop.block) (hashing.num firstTop.block) firstTop =
        some (firstUpper, firstItem) ∧
      descend hashing forkDb (hashing.num firstItem.block) (hashing.num secondTop.block) secondTop =
        some (secondUpper, secondItem) ∧
      meet forkDb (hashing.num firstItem.block) firstItem secondItem =
        some (firstLower, secondLower) ∧
      firstBranch = firstUpper ++ firstLower ∧ secondBranch = secondUpper ++ secondLower := by
  unfold fetchBranchFrom at done
  obtain ⟨firstTop, foundFirst, done⟩ := Option.bind_eq_some_iff.mp done
  obtain ⟨secondTop, foundSecond, done⟩ := Option.bind_eq_some_iff.mp done
  obtain ⟨⟨firstUpper, firstItem⟩, descendFirst, done⟩ := Option.bind_eq_some_iff.mp done
  obtain ⟨⟨secondUpper, secondItem⟩, descendSecond, done⟩ := Option.bind_eq_some_iff.mp done
  obtain ⟨⟨firstLower, secondLower⟩, meets, done⟩ := Option.bind_eq_some_iff.mp done
  cases done
  exact ⟨firstTop, secondTop, firstUpper, firstItem, secondUpper, secondItem, firstLower,
    secondLower, foundFirst, foundSecond, descendFirst, descendSecond, meets, rfl, rfl⟩

/-- The branches start with the two blocks asked for. -/
theorem fetchBranchFrom_heads {first second : Id}
    {firstBranch secondBranch : List (ForkItem Id Tx H)}
    (done : forkDb.fetchBranchFrom hashing first second = some (firstBranch, secondBranch)) :
    (∃ top rest, firstBranch = top :: rest ∧ hashing.id top.block = first) ∧
      ∃ top rest, secondBranch = top :: rest ∧ hashing.id top.block = second := by
  obtain ⟨firstTop, secondTop, firstUpper, firstItem, secondUpper, secondItem, firstLower,
    secondLower, foundFirst, foundSecond, descendFirst, descendSecond, meets, rfl, rfl⟩ :=
    fetchBranchFrom_parts done
  obtain ⟨⟨firstRest, rfl⟩, secondRest, rfl⟩ := meet_head meets
  constructor
  · rcases descend_head descendFirst with ⟨rfl, rfl⟩ | ⟨rest, rfl⟩
    · exact ⟨_, _, rfl, (fetchBlock_id foundFirst).1⟩
    · exact ⟨_, _, rfl, (fetchBlock_id foundFirst).1⟩
  · rcases descend_head descendSecond with ⟨rfl, rfl⟩ | ⟨rest, rfl⟩
    · exact ⟨_, _, rfl, (fetchBlock_id foundSecond).1⟩
    · exact ⟨_, _, rfl, (fetchBlock_id foundSecond).1⟩

end ForkDatabase

end DeipChain.Chain
