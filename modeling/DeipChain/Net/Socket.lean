import DeipChain.Lib.PartialReads

/-!
# The encrypted socket

`stcp_socket` exchanges public keys over a TCP connection, derives a shared secret from them, and
from then on writes and reads in blocks of 16 bytes, each encrypted with a cipher whose state
goes on from block to block. It reads and writes at most 4096 bytes at a time, and a read that
the TCP connection ends within a block is filled up to the end of that block.

`Cipher` and `KeyExchange` are what the socket relies on: a decoder that goes along with an
encoder gives every block back, and both ends derive the same secret.

`Receiving` says of a socket that it is on the receiving end of given bytes: what is still to
come is their ciphertext, cut off somewhere. A read then gives these bytes, however the
connection splits them (`Receiving.read`).
-/
namespace DeipChain.Net

open PartialReads

/-- The block cipher of `fc::aes_encoder` and `fc::aes_decoder`, with the states of both. -/
structure Cipher (E D : Type) where
  encodeBlock : E → List UInt8 → List UInt8 × E
  decodeBlock : D → List UInt8 → List UInt8 × D
  /-- The decoder has seen the blocks that the encoder has made. -/
  paired : E → D → Prop
  length_encode : ∀ encoder block, block.length = 16 → (encodeBlock encoder block).1.length = 16
  length_decode : ∀ decoder block, block.length = 16 → (decodeBlock decoder block).1.length = 16
  undoes : ∀ encoder decoder block, paired encoder decoder → block.length = 16 →
    (decodeBlock decoder (encodeBlock encoder block).1).1 = block ∧
      paired (encodeBlock encoder block).2 (decodeBlock decoder (encodeBlock encoder block).1).2

/-- The keys of `fc::ecc`, and how the ciphers are set up from the shared secret. -/
structure KeyExchange (Key Secret E D : Type) (cipher : Cipher E D) where
  /-- The serialized public key. -/
  serialize : Key → List UInt8
  getSharedSecret : Key → List UInt8 → Secret
  encoder : Secret → E
  decoder : Secret → D
  length_serialize : ∀ key, (serialize key).length = 33
  agree : ∀ key other,
    getSharedSecret key (serialize other) = getSharedSecret other (serialize key)
  paired : ∀ secret, cipher.paired (encoder secret) (decoder secret)

/-- A number of blocks one after the other, through a call on a single block. -/
def eachBlock {T : Type} (block : T → List UInt8 → List UInt8 × T) :
    Nat → T → List UInt8 → List UInt8 × T
  | 0, state, _ => ([], state)
  | count + 1, state, bytes =>
    let first := block state (bytes.take 16)
    let rest := eachBlock block count first.2 (bytes.drop 16)
    (first.1 ++ rest.1, rest.2)

section Blocks

variable {T : Type} (block : T → List UInt8 → List UInt8 × T)

theorem eachBlock_add (first second : Nat) (state : T) (bytes : List UInt8) :
    eachBlock block (first + second) state bytes =
      ((eachBlock block first state bytes).1 ++
          (eachBlock block second (eachBlock block first state bytes).2
            (bytes.drop (16 * first))).1,
        (eachBlock block second (eachBlock block first state bytes).2
          (bytes.drop (16 * first))).2) := by
  induction first generalizing state bytes with
  | zero => rw [Nat.zero_add, Nat.mul_zero, List.drop_zero]; rfl
  | succ first hypothesis =>
    have behind : (bytes.drop 16).drop (16 * first) = bytes.drop (16 * (first + 1)) := by
      rw [List.drop_drop]
      congr 1
      omega
    rw [Nat.add_right_comm, eachBlock, hypothesis, behind]
    simp only [eachBlock, List.append_assoc]

/-- Only the bytes of these blocks are read. -/
theorem eachBlock_take (count more : Nat) (state : T) (bytes : List UInt8) (within : count ≤ more) :
    eachBlock block count state (bytes.take (16 * more)) = eachBlock block count state bytes := by
  induction count generalizing more state bytes with
  | zero => rfl
  | succ count hypothesis =>
    obtain ⟨fewer, rfl⟩ : ∃ fewer, more = fewer + 1 := ⟨more - 1, by omega⟩
    have head : (bytes.take (16 * (fewer + 1))).take 16 = bytes.take 16 := by
      rw [List.take_take]
      congr 1
    have tail : (bytes.take (16 * (fewer + 1))).drop 16 = (bytes.drop 16).take (16 * fewer) := by
      rw [List.drop_take]
      congr 1
    simp only [eachBlock, head, tail, hypothesis fewer _ _ (by omega)]

theorem length_eachBlock
    (sized : ∀ state bytes, bytes.length = 16 → (block state bytes).1.length = 16)
    (count : Nat) (state : T) (bytes : List UInt8) (there : 16 * count ≤ bytes.length) :
    (eachBlock block count state bytes).1.length = 16 * count := by
  induction count generalizing state bytes with
  | zero => rfl
  | succ count hypothesis =>
    have first : (bytes.take 16).length = 16 := by
      rw [List.length_take]
      omega
    rw [eachBlock, List.length_append, sized _ _ first,
      hypothesis _ _ (by rw [List.length_drop]; omega)]
    omega

end Blocks

namespace Cipher

variable {E D : Type} (cipher : Cipher E D)

/-- `aes_encoder::encode` for a multiple of 16 bytes. -/
def encode (encoder : E) (bytes : List UInt8) : List UInt8 × E :=
  eachBlock cipher.encodeBlock (bytes.length / 16) encoder bytes

/-- `aes_decoder::decode` for a multiple of 16 bytes. -/
def decode (decoder : D) (bytes : List UInt8) : List UInt8 × D :=
  eachBlock cipher.decodeBlock (bytes.length / 16) decoder bytes

/-- The encoder goes on where it was. -/
theorem encode_split (encoder : E) {bytes : List UInt8} {blocks : Nat}
    (there : 16 * blocks ≤ bytes.length) :
    cipher.encode encoder bytes =
      ((cipher.encode encoder (bytes.take (16 * blocks))).1 ++
        (cipher.encode (cipher.encode encoder (bytes.take (16 * blocks))).2
          (bytes.drop (16 * blocks))).1,
        (cipher.encode (cipher.encode encoder (bytes.take (16 * blocks))).2
          (bytes.drop (16 * blocks))).2) := by
  have front : (bytes.take (16 * blocks)).length / 16 = blocks := by
    rw [List.length_take]
    omega
  have parts : bytes.length / 16 = blocks + (bytes.drop (16 * blocks)).length / 16 := by
    rw [List.length_drop]
    omega
  simp only [encode, front, parts, eachBlock_add, eachBlock_take _ _ _ _ _ (Nat.le_refl blocks)]

/-- What comes out of the encoder comes out of the decoder as it was, and the two stay
together. -/
theorem decode_blocks (count : Nat) {encoder : E} {decoder : D} {bytes : List UInt8}
    (paired : cipher.paired encoder decoder) (there : 16 * count ≤ bytes.length) :
    (eachBlock cipher.decodeBlock count decoder
        (eachBlock cipher.encodeBlock count encoder bytes).1).1 = bytes.take (16 * count) ∧
      cipher.paired (eachBlock cipher.encodeBlock count encoder bytes).2
        (eachBlock cipher.decodeBlock count decoder
          (eachBlock cipher.encodeBlock count encoder bytes).1).2 := by
  induction count generalizing encoder decoder bytes with
  | zero => exact ⟨rfl, paired⟩
  | succ count hypothesis =>
    have block : (bytes.take 16).length = 16 := by
      rw [List.length_take]
      omega
    have length := cipher.length_encode encoder _ block
    obtain ⟨same, further⟩ := cipher.undoes encoder decoder _ paired block
    obtain ⟨rest, still⟩ := @hypothesis _ _ (bytes.drop 16) further
      (by rw [List.length_drop]; omega)
    have joined : bytes.take (16 * (count + 1)) =
        bytes.take 16 ++ (bytes.drop 16).take (16 * count) := by
      rw [← List.take_add]
      congr 1
      omega
    simp only [eachBlock, List.take_left' length, List.drop_left' length]
    rw [same, rest, joined]
    exact ⟨rfl, still⟩

end Cipher

/-- The socket of the TCP connection: what arrives, and what has been written. -/
structure TcpSocket where
  source : Source UInt8
  written : List UInt8

/-- `stcp_socket` -/
structure StcpSocket (E D : Type) where
  sock : TcpSocket
  sendAes : E
  recvAes : D

namespace StcpSocket

variable {Key Secret E D : Type} {cipher : Cipher E D}

/-- `do_key_exchange`: the own public key is written, the other one read. -/
def doKeyExchange (exchange : KeyExchange Key Secret E D cipher) (privKey : Key)
    (sock : TcpSocket) : Option (StcpSocket E D) :=
  match read Source.readsome 33 sock.source with
  | none => none
  | some (rpub, source) =>
    let sharedSecret := exchange.getSharedSecret privKey rpub
    some {
      sock := { source := source, written := sock.written ++ exchange.serialize privKey }
      sendAes := exchange.encoder sharedSecret
      recvAes := exchange.decoder sharedSecret }

variable (cipher)

/-- The bytes are decrypted. -/
def decoded (socket : StcpSocket E D) (bytes : List UInt8) (source : Source UInt8) :
    List UInt8 × StcpSocket E D :=
  ((cipher.decode socket.recvAes bytes).1,
    { socket with
      sock := { socket.sock with source := source }
      recvAes := (cipher.decode socket.recvAes bytes).2 })

/-- `readsome`: a block that has arrived in part is read to its end. -/
def readsome : Readsome UInt8 (StcpSocket E D) := fun len socket =>
  match socket.sock.source.readsome (min 4096 len) with
  | none => none
  | some (bytes, source) =>
    if bytes.length % 16 = 0 then some (socket.decoded cipher bytes source)
    else
      match read Source.readsome (16 - bytes.length % 16) source with
      | none => none
      | some (more, later) => some (socket.decoded cipher (bytes ++ more) later)

/-- `writesome`: how many bytes are written, and the socket after it. -/
def writesome (bytes : List UInt8) (socket : StcpSocket E D) : Nat × StcpSocket E D :=
  let piece := bytes.take 4096
  (piece.length,
    { socket with
      sock := { socket.sock with
        written := socket.sock.written ++ (cipher.encode socket.sendAes piece).1 }
      sendAes := (cipher.encode socket.sendAes piece).2 })

/-- The loop of `write` for as many rounds as are given. -/
def writeRounds : Nat → List UInt8 → StcpSocket E D → StcpSocket E D
  | _, [], socket => socket
  | 0, _ :: _, socket => socket
  | rounds + 1, byte :: bytes, socket =>
    let written := socket.writesome cipher (byte :: bytes)
    writeRounds rounds ((byte :: bytes).drop written.1) written.2

/-- `write`: every round takes a byte at least. -/
def write (bytes : List UInt8) (socket : StcpSocket E D) : StcpSocket E D :=
  socket.writeRounds cipher bytes.length bytes

/-- What the socket reads: the blocks that are still to come, decrypted. -/
def plainStream : ReadStream UInt8 (D × List UInt8) where
  unit := 16
  take count contents :=
    ((eachBlock cipher.decodeBlock (count / 16) contents.1 contents.2).1,
      ((eachBlock cipher.decodeBlock (count / 16) contents.1 contents.2).2,
        contents.2.drop count))
  available contents := contents.2.length
  take_zero _ := rfl
  take_add first second contents whole := by
    obtain ⟨count, rfl⟩ := whole
    have parts : (16 * count + second) / 16 = count + second / 16 := by omega
    have alone : 16 * count / 16 = count := by omega
    rw [parts, alone, eachBlock_add, List.drop_drop]
  available_take count contents _ := List.length_drop

/-- What is still to come, with the state to decrypt it. -/
def contents (socket : StcpSocket E D) : D × List UInt8 :=
  (socket.recvAes, socket.sock.source.incoming)

/-- What the connection gives for a partial read, which is at most as much as was asked for even
when the last block is filled up. -/
theorem piece_of_readsome {limit : Nat} {source later : Source UInt8} {bytes : List UInt8}
    (wanted : 0 < limit) (whole : 16 ∣ limit)
    (result : source.readsome (min 4096 limit) = some (bytes, later)) :
    0 < bytes.length ∧ bytes.length + (16 - bytes.length % 16) % 16 ≤ limit ∧
      bytes.length ≤ source.incoming.length ∧ bytes = source.incoming.take bytes.length ∧
      later.incoming = source.incoming.drop bytes.length := by
  obtain ⟨positive, most, -, there, taken⟩ :=
    source_serves.gives (min 4096 limit) source bytes later (by omega) (Nat.one_dvd _) result
  obtain ⟨front, behind⟩ := Prod.mk.inj taken
  exact ⟨positive, by omega, there, front.symm, behind.symm⟩

/-- A partial read has decrypted a number of whole blocks. -/
theorem readsome_some {limit : Nat} {socket next : StcpSocket E D} {plain : List UInt8}
    (wanted : 0 < limit) (whole : 16 ∣ limit)
    (result : socket.readsome cipher limit = some (plain, next)) :
    ∃ count source, 0 < count ∧ 16 * count ≤ limit ∧
      16 * count ≤ socket.sock.source.incoming.length ∧
      source.incoming = socket.sock.source.incoming.drop (16 * count) ∧
      (plain, next) =
        socket.decoded cipher (socket.sock.source.incoming.take (16 * count)) source := by
  unfold readsome at result
  split at result
  · cases result
  · rename_i bytes source piece
    obtain ⟨positive, most, there, front, behind⟩ := piece_of_readsome wanted whole piece
    split at result
    · rename_i full
      have blocks : 16 * (bytes.length / 16) = bytes.length := by omega
      refine ⟨bytes.length / 16, source, by omega, by omega, by omega, ?_, ?_⟩
      · rw [blocks, behind]
      · rw [blocks, ← front]
        exact (Option.some.inj result).symm
    · rename_i broken
      split at result
      · cases result
      · rename_i more later filled
        have blocks : 16 * (bytes.length / 16 + 1) =
            bytes.length + (16 - bytes.length % 16) := by omega
        have left : 16 - bytes.length % 16 ≤ source.incoming.length := by
          by_contra short
          rw [read_source_none (by omega)] at filled
          cases filled
        obtain ⟨last, got, remaining⟩ := read_source left
        rw [got, Option.some.injEq, Prod.mk.injEq] at filled
        obtain ⟨rfl, rfl⟩ := filled
        have available : source.incoming.length =
            socket.sock.source.incoming.length - bytes.length := by
          rw [behind, List.length_drop]
        refine ⟨bytes.length / 16 + 1, last, by omega, by omega, by omega, ?_, ?_⟩
        · rw [blocks, remaining, behind, List.drop_drop]
        · rw [blocks, List.take_add, ← front, ← behind]
          exact (Option.some.inj result).symm

theorem stcp_serves : Serves (plainStream cipher) contents (readsome cipher) where
  returns limit socket wanted whole there := by
    obtain ⟨⟨bytes, source⟩, piece⟩ := source_serves.returns (min 4096 limit) socket.sock.source
      (by omega) (Nat.one_dvd _) (Nat.le_trans (Nat.min_le_right _ _) there)
    obtain ⟨positive, most, present, front, behind⟩ := piece_of_readsome wanted whole piece
    simp only [readsome, piece]
    split
    · exact ⟨_, rfl⟩
    · have left : 16 - bytes.length % 16 ≤ source.incoming.length := by
        have available : limit ≤ socket.sock.source.incoming.length := there
        rw [behind, List.length_drop]
        omega
      obtain ⟨last, got, -⟩ := read_source left
      exact ⟨_, by rw [got]⟩
  gives limit socket plain next wanted whole result := by
    obtain ⟨count, source, positive, most, there, rest, read⟩ :=
      readsome_some cipher wanted whole result
    have taken : (socket.sock.source.incoming.take (16 * count)).length = 16 * count := by
      rw [List.length_take]
      omega
    have alone : 16 * count / 16 = count := by omega
    simp only [decoded, Cipher.decode, taken, alone, eachBlock_take _ _ _ _ _ (Nat.le_refl count),
      Prod.mk.injEq] at read
    obtain ⟨rfl, rfl⟩ := read
    have length := length_eachBlock cipher.decodeBlock cipher.length_decode count socket.recvAes
      socket.sock.source.incoming there
    rw [length]
    refine ⟨by omega, most, Nat.dvd_mul_right 16 count, there, ?_⟩
    simp only [plainStream, contents, alone, rest]

/-- The bytes have been encrypted and written. -/
def encoded (socket : StcpSocket E D) (bytes : List UInt8) : StcpSocket E D :=
  { socket with
    sock := { socket.sock with
      written := socket.sock.written ++ (cipher.encode socket.sendAes bytes).1 }
    sendAes := (cipher.encode socket.sendAes bytes).2 }

/-- What is written in pieces is encrypted as a whole would be. -/
theorem writeRounds_eq {rounds : Nat} {bytes : List UInt8} {socket : StcpSocket E D}
    (enough : bytes.length ≤ rounds) (whole : 16 ∣ bytes.length) :
    socket.writeRounds cipher rounds bytes = socket.encoded cipher bytes := by
  induction rounds generalizing bytes socket with
  | zero =>
    obtain rfl := List.length_eq_zero_iff.mp (Nat.le_zero.mp enough)
    simp only [writeRounds, encoded, Cipher.encode, List.length_nil, Nat.zero_div, eachBlock,
      List.append_nil]
  | succ rounds hypothesis =>
    cases bytes with
    | nil =>
      simp only [writeRounds, encoded, Cipher.encode, List.length_nil, Nat.zero_div, eachBlock,
        List.append_nil]
    | cons byte behind =>
      rw [writeRounds]
      generalize listed : byte :: behind = bytes at *
      have some : 0 < bytes.length := by rw [← listed]; exact Nat.succ_pos _
      obtain ⟨blocks, there, piece⟩ : ∃ blocks, 16 * blocks ≤ bytes.length ∧
          bytes.take 4096 = bytes.take (16 * blocks) ∧ 0 < blocks := by
        rcases Nat.le_total 4096 bytes.length with long | short
        · exact ⟨256, long, rfl, by omega⟩
        · refine ⟨bytes.length / 16, by omega, ?_, by omega⟩
          rw [Nat.mul_div_cancel' whole, List.take_length, List.take_of_length_le short]
      have length : (bytes.take (16 * blocks)).length = 16 * blocks := by
        rw [List.length_take]
        omega
      have rest : (bytes.drop (16 * blocks)).length = bytes.length - 16 * blocks :=
        List.length_drop
      simp only [writesome, piece.1, length]
      rw [hypothesis (by rw [rest]; omega) (by rw [rest]; omega)]
      simp only [encoded, cipher.encode_split socket.sendAes there, List.append_assoc]

theorem write_eq {bytes : List UInt8} {socket : StcpSocket E D} (whole : 16 ∣ bytes.length) :
    socket.write cipher bytes = socket.encoded cipher bytes :=
  writeRounds_eq cipher (Nat.le_refl _) whole

end StcpSocket

/-- The socket is on the receiving end of these bytes, as far as they arrive. -/
structure Receiving {E D : Type} (cipher : Cipher E D) (plain : List UInt8) (cut : Nat)
    (socket : StcpSocket E D) : Prop where
  whole : 16 ∣ plain.length
  sent : ∃ encoder, cipher.paired encoder socket.recvAes ∧
    socket.sock.source.incoming = (cipher.encode encoder plain).1.take cut

namespace Receiving

variable {E D : Type} {cipher : Cipher E D} {plain : List UInt8} {cut count : Nat}
  {socket : StcpSocket E D}

theorem length_incoming (receiving : Receiving cipher plain cut socket) :
    socket.sock.source.incoming.length = min cut plain.length := by
  obtain ⟨encoder, paired, sent⟩ := receiving.sent
  have blocks : 16 * (plain.length / 16) = plain.length := Nat.mul_div_cancel' receiving.whole
  rw [sent, List.length_take, Cipher.encode, length_eachBlock _ cipher.length_encode _ _ _
    (Nat.le_of_eq blocks), blocks]

/-- A read gives the bytes that were written, whatever the pieces they arrive in. -/
theorem read (receiving : Receiving cipher plain cut socket) (whole : 16 ∣ count)
    (there : count ≤ plain.length) (arrived : count ≤ cut) :
    ∃ last, PartialReads.read (StcpSocket.readsome cipher) count socket =
        some (plain.take count, last) ∧ Receiving cipher (plain.drop count) (cut - count) last := by
  have length := receiving.length_incoming
  obtain ⟨all, encoder, paired, sent⟩ := receiving
  obtain ⟨last, got, reached⟩ := read_eq (StcpSocket.stcp_serves cipher) whole
    (show count ≤ socket.sock.source.incoming.length by omega)
  obtain ⟨blocks, rfl⟩ := whole
  have alone : 16 * blocks / 16 = blocks := by omega
  have split : plain.length / 16 = blocks + (plain.drop (16 * blocks)).length / 16 := by
    rw [List.length_drop]
    omega
  rw [Cipher.encode, split, eachBlock_add] at sent
  dsimp only at sent
  have front : (eachBlock cipher.encodeBlock blocks encoder plain).1.length = 16 * blocks :=
    length_eachBlock _ cipher.length_encode _ _ _ there
  have first : socket.sock.source.incoming.take (16 * blocks) =
      (eachBlock cipher.encodeBlock blocks encoder plain).1 := by
    rw [sent, List.take_take, Nat.min_eq_left arrived, List.take_left' front]
  have decoded := cipher.decode_blocks blocks paired there
  rw [← first, eachBlock_take _ _ _ _ _ (Nat.le_refl blocks)] at decoded
  simp only [StcpSocket.plainStream, StcpSocket.contents, alone] at got reached
  obtain ⟨state, rest⟩ := Prod.mk.inj reached
  refine ⟨last, by rw [got, decoded.1], ⟨?_, _, state ▸ decoded.2, ?_⟩⟩
  · rw [List.length_drop]
    omega
  · rw [rest, sent, List.drop_take, List.drop_left' front]
    rfl

/-- Nothing is read when not enough arrives. -/
theorem read_none (receiving : Receiving cipher plain cut socket) (whole : 16 ∣ count)
    (lacking : min cut plain.length < count) :
    PartialReads.read (StcpSocket.readsome cipher) count socket = none := by
  refine PartialReads.read_none (StcpSocket.stcp_serves cipher) whole ?_
  show socket.sock.source.incoming.length < count
  rwa [receiving.length_incoming]

end Receiving

end DeipChain.Net
