import DeipChain.Chain.Hardforks
import DeipChain.Chain.ProductionRuns

/-!
# Headers and the sizes of blocks

A block carries in its header the name of its witness and what the witness reports: its
version, and its vote for a hardfork. `_generate_block` counts the size of the block it
fills from a header without either, and `_apply_block` measures the block as it is.

`Objects` names the objects that producing and opening a block reads and writes;
`Surroundings` holds the rest of the chain. The operations of the transactions and the
checks of their signatures read and write none of the named objects. The signing keys of
the witnesses are among the others, since an operation sets them.
-/
namespace DeipChain.Chain

open Snapshots Result Std
open DeipChain.WitnessSchedule (Extension hardforkPart hardforkTimes hardforkVersion
  numHardforks versionOf)

/-- `DEIP_BLOCKCHAIN_VERSION` -/
def blockchainVersion : Nat := hardforkVersion 0 1

/-- `DEIP_BLOCKCHAIN_HARDFORK_VERSION` -/
def blockchainHardforkVersion : Nat := hardforkPart blockchainVersion

/-- The packed size of an `unsigned_int` of 32 bits, seven bits to a byte. -/
def varintSize (value : Nat) : Nat :=
  if value < 2 ^ 7 then 1
  else if value < 2 ^ 14 then 2
  else if value < 2 ^ 21 then 3
  else if value < 2 ^ 28 then 4
  else 5

theorem varintSize_mono {value larger : Nat} (below : value ≤ larger) :
    varintSize value ≤ varintSize larger := by
  simp only [varintSize]
  split_ifs <;> omega

/-- The packed size of a string. -/
def stringSize (text : String) : Nat := varintSize text.utf8ByteSize + text.utf8ByteSize

/-- The packed size of an extension: a byte for its kind, and 32-bit fields. -/
def extensionSize : Extension → Nat
  | .void => 1
  | .version _ => 1 + 4
  | .hardforkVersionVote _ _ => 1 + 4 + 4

/-- The packed size of the extensions. -/
def extensionsSize (extensions : List Extension) : Nat :=
  varintSize extensions.length + (extensions.map extensionSize).sum

/-- The packed size of a `signed_block_header`: two hashes, a time, the witness, the
extensions and a signature. -/
def headerSize (witness : String) (extensions : List Extension) : Nat :=
  20 + 4 + stringSize witness + 20 + extensionsSize extensions + 65

/-- `max_block_header_size` -/
def maxBlockHeaderSize : Nat := headerSize "" [] + 4

/-- `block_header`, what a witness signs. -/
structure BlockHeader (Id Digest : Type) where
  previous : Id
  timestamp : Nat
  witness : String
  transactionMerkleRoot : Digest
  extensions : List Extension

/-- The fields of a `signed_block` besides the previous id, the witness and the
transactions. -/
structure SignedHeader (Digest Signature : Type) where
  timestamp : Nat
  transactionMerkleRoot : Digest
  extensions : List Extension
  witnessSignature : Signature
  deriving DecidableEq

/-- What a `witness_object` says of the software of its witness. -/
structure Reported where
  runningVersion : Nat
  hardforkVersionVote : Nat
  hardforkTimeVote : Nat
  deriving DecidableEq

/-- `hardfork_property_object`: no hardfork beyond the known ones is ever applied. -/
structure HardforkProperty where
  lastHardfork : Nat
  known : lastHardfork ≤ numHardforks

/-- `current_hardfork_version` -/
def HardforkProperty.currentHardforkVersion (hardforks : HardforkProperty) : Nat :=
  versionOf hardforks.lastHardfork

theorem HardforkProperty.current_le (hardforks : HardforkProperty) :
    hardforks.currentHardforkVersion ≤ blockchainVersion := by
  have known := hardforks.known
  rw [numHardforks] at known
  rw [currentHardforkVersion]
  rcases Nat.le_one_iff_eq_zero_or_eq_one.mp known with first | last
  · rw [first]
    decide
  · rw [last]
    decide

/-- The objects besides the core, the time and the index of transactions. A witness without
an entry has reported nothing yet. -/
structure Objects (Other : Type) where
  currentWitness : String
  maximumBlockSize : Nat
  currentAslot : Nat
  currentShuffledWitnesses : List String
  reported : ExtTreeMap String Reported
  hardforks : HardforkProperty
  other : Other

namespace Objects

variable {Other : Type} (objects : Objects Other)

/-- The reports of a witness. -/
def reportOf (owner : String) : Reported := objects.reported[owner]?.getD ⟨0, 0, 0⟩

/-- A change of the reports of a witness. -/
def modifyReport (owner : String) (change : Reported → Reported) : Objects Other :=
  { objects with reported := objects.reported.insert owner (change (objects.reportOf owner)) }

/-- One extension of `process_header_extensions`. -/
def processExtension (owner : String) : Extension → Objects Other
  | .void => objects
  | .version reported =>
    objects.modifyReport owner (fun witness => { witness with runningVersion := reported })
  | .hardforkVersionVote version at_ =>
    objects.modifyReport owner (fun witness =>
      { witness with hardforkVersionVote := hardforkPart version, hardforkTimeVote := at_ })

/-- `process_header_extensions` -/
def processHeaderExtensions (owner : String) (extensions : List Extension) : Objects Other :=
  extensions.foldl (fun changed extension => changed.processExtension owner extension) objects

/-- The version that `_generate_block` puts into the header. -/
def versionReport (owner : String) : List Extension :=
  if (objects.reportOf owner).runningVersion ≠ blockchainVersion then [.version blockchainVersion]
  else []

/-- The vote that `_generate_block` puts into the header: for the next hardfork the node
knows of, or against one it does not. -/
def hardforkVote (genesisTime : Nat) (owner : String) : List Extension :=
  let witness := objects.reportOf owner
  let timeOf (hardfork : Nat) := (hardforkTimes genesisTime)[hardfork]?.getD 0
  let last := objects.hardforks.lastHardfork
  let current := objects.hardforks.currentHardforkVersion
  if current < blockchainHardforkVersion ∧
      (witness.hardforkVersionVote ≠ versionOf (last + 1) ∨
        witness.hardforkTimeVote ≠ timeOf (last + 1)) then
    [.hardforkVersionVote (versionOf (last + 1)) (timeOf (last + 1))]
  else if current = blockchainHardforkVersion ∧
      witness.hardforkVersionVote > blockchainHardforkVersion then
    [.hardforkVersionVote (versionOf last) (timeOf last)]
  else []

/-- The extensions of a block that `_generate_block` builds. -/
def reportExtensions (genesisTime : Nat) (owner : String) : List Extension :=
  objects.versionReport owner ++ objects.hardforkVote genesisTime owner

/-- `get_scheduled_witness` -/
def getScheduledWitness (slot : Nat) : String :=
  let shuffled := objects.currentShuffledWitnesses
  shuffled[(objects.currentAslot + slot) % shuffled.length]?.getD ""

/-- A program on the other objects as one on all. -/
def onOther {Id : Type} (step : RestStep Id Other) : RestStep Id (Objects Other) :=
  fun core time objects =>
    (step core time objects.other).onto (fun other => { objects with other := other })

end Objects

/-- The rest of the chain: transactions, hashes and keys, the programs of the operations and
of the processes of a block. A signature gives back the key it was made with. -/
structure Surroundings (Id Tx TxId Key Digest Signature Other : Type) where
  evaluators : Evaluators Id Tx (SignedHeader Digest Signature) TxId (Objects Other)
  packSize : Tx → Nat
  calculateMerkleRoot : List Tx → Digest
  sign : Key → BlockHeader Id Digest → Signature
  signee : BlockHeader Id Digest → Signature → Key
  signee_sign : ∀ header key, signee header (sign key header) = key
  signingKey : Other → String → Key
  witnessParticipationRate : Objects Other → Nat
  verifyAuthority : Tx → RestCheck Id Other
  operations : Tx → RestStep Id Other
  genesisTime : Nat

namespace Surroundings

variable {Id Tx TxId Key Digest Signature Other : Type}
  (surroundings : Surroundings Id Tx TxId Key Digest Signature Other)

/-- The pending transactions that `_generate_block` considers for a time. -/
def unexpiredFor (due : Nat) (pool : List Tx) : List Tx :=
  pool.filter (fun transaction => due ≤ surroundings.evaluators.expiration transaction)

/-- The packed size of a `signed_block`. -/
def blockSize (block : Block Id Tx (SignedHeader Digest Signature)) : Nat :=
  headerSize block.witness block.header.extensions + varintSize block.transactions.length +
    (block.transactions.map surroundings.packSize).sum

/-- The header that a block's witness has signed. -/
def signedHeader (block : Block Id Tx (SignedHeader Digest Signature)) : BlockHeader Id Digest :=
  { previous := block.previous
    timestamp := block.header.timestamp
    witness := block.witness
    transactionMerkleRoot := block.header.transactionMerkleRoot
    extensions := block.header.extensions }

/-- `_apply_block` between the checks of the header and the transactions: the size, the
extensions of the header and the version of the witness. -/
def openBlock (block : Block Id Tx (SignedHeader Digest Signature)) :
    RestStep Id (Objects Other) :=
  fun _ _ objects =>
    guarding (require (surroundings.blockSize block ≤ objects.maximumBlockSize)
        (.rejected "Block Size is too Big"))
      (let opened := { objects with currentWitness := block.witness }.processHeaderExtensions
          block.witness block.header.extensions
       .write opened (guarding
        (require (opened.hardforks.currentHardforkVersion ≤
            (opened.reportOf block.witness).runningVersion)
          (.rejected "Block produced by witness that is not running current hardfork")) .done))

variable [DecidableEq Digest] [DecidableEq Key]

/-- What `_apply_block` and `_apply_transaction` run. -/
def sized : Evaluators Id Tx (SignedHeader Digest Signature) TxId (Objects Other) :=
  { surroundings.evaluators with
    timestamp := SignedHeader.timestamp
    merkleMatches block :=
      block.header.transactionMerkleRoot = surroundings.calculateMerkleRoot block.transactions
    validateSignee block _ _ objects :=
      require (surroundings.signee (signedHeader block) block.header.witnessSignature =
          surroundings.signingKey objects.other block.witness)
        (.rejected "next_block.validate_signee(witness.signing_key)")
    scheduledWitness block core time objects := do
      let slot := getSlotAtTime block.header.timestamp core time
      require (0 < slot) (.rejected "slot_num > 0")
      require (block.witness = objects.getScheduledWitness slot)
        (.rejected "Witness produced block at wrong time")
    beginBlock := surroundings.openBlock
    verifyAuthority transaction core time objects :=
      surroundings.verifyAuthority transaction core time objects.other
    currentShuffledWitnesses := Objects.currentShuffledWitnesses
    operations transaction := Objects.onOther (surroundings.operations transaction) }

/-- The signed header of the block that `_generate_block` builds on a state. -/
def signHeader (due : Nat) (owner : String) (key : Key) (transactions : List Tx) (core : Core Id)
    (objects : Objects Other) : SignedHeader Digest Signature :=
  let root := surroundings.calculateMerkleRoot transactions
  let extensions := objects.reportExtensions surroundings.genesisTime owner
  { timestamp := due
    transactionMerkleRoot := root
    extensions := extensions
    witnessSignature := surroundings.sign key
      { previous := core.headBlockId
        timestamp := due
        witness := owner
        transactionMerkleRoot := root
        extensions := extensions } }

/-- What `_generate_block` reads and writes. -/
def producing : Producing surroundings.sized Key where
  packSize := surroundings.packSize
  blockSize := surroundings.blockSize
  maxBlockHeaderSize := maxBlockHeaderSize
  maximumBlockSize := Objects.maximumBlockSize
  currentAslot := Objects.currentAslot
  signingKey objects owner := surroundings.signingKey objects.other owner
  witnessParticipationRate := surroundings.witnessParticipationRate
  header := surroundings.signHeader
  timestamp_header _ _ _ _ _ _ := rfl

end Surroundings

end DeipChain.Chain
