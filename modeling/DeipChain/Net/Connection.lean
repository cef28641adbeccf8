import DeipChain.Lib.Words
import DeipChain.Net.Socket

/-!
# Messages over a connection

`message_oriented_connection` sends a message as its header of 8 bytes and its data, filled up to
a multiple of 16 bytes with whatever the buffer holds. The read loop at the other end reads 16
bytes, learns the size from the header, reads the rest, and hands the message to its delegate.
The loop ends when the connection does, when a header has a size above `MAX_MESSAGE_SIZE`, and
when the delegate throws.

`deliver` says what the delegate should see of a list of messages when a number of bytes
arrives: every message that has arrived to its end, in order. The read loop does just that,
for every split of the bytes into pieces and every content of the filling (`readLoop_delivers`).
-/
namespace DeipChain.Net

open PartialReads Words

/-- `MAX_MESSAGE_SIZE` -/
def maxMessageSize : Nat := 1024 * 1024 * 2

/-- `message`: the header says how much data there is. -/
structure Message where
  size : UInt32
  msgType : UInt32
  data : List UInt8
  sized : data.length = size.toNat
  deriving DecidableEq

/-- `vector::resize` -/
def resize (bytes : List UInt8) (size : Nat) : List UInt8 :=
  bytes.take size ++ List.replicate (size - bytes.length) 0

theorem length_resize (bytes : List UInt8) (size : Nat) : (resize bytes size).length = size := by
  rw [resize, List.length_append, List.length_take, List.length_replicate]
  omega

/-- The header as it lies in memory. -/
def Message.header (message : Message) : List UInt8 :=
  toBytes 4 message.size.toNat ++ toBytes 4 message.msgType.toNat

/-- The size of the buffer that is sent. -/
def sizeWithPadding (message : Message) : Nat := 16 * ((8 + message.size.toNat + 15) / 16)

/-- The buffer that is sent; its end is not initialized. -/
def paddedMessage (message : Message) (uninitialized : Nat → UInt8) : List UInt8 :=
  message.header ++ message.data ++
    (List.range (sizeWithPadding message - (8 + message.size.toNat))).map uninitialized

/-- What follows the first 16 bytes, as computed with 32 bits. -/
def remainingBytesWithPadding (size : UInt32) : Nat := (16 * ((size - 8 + 15) / 16)).toNat

section Connection

variable {E D H T : Type} (cipher : Cipher E D)

/-- `send_message` -/
def sendMessage (message : Message) (uninitialized : Nat → UInt8) (sock : StcpSocket E D) :
    StcpSocket E D :=
  sock.write cipher (paddedMessage message uninitialized)

/-- Messages sent one after the other. -/
def sendAll : List (Message × (Nat → UInt8)) → StcpSocket E D → StcpSocket E D
  | [], sock => sock
  | (message, uninitialized) :: rest, sock =>
    sendAll rest (sendMessage cipher message uninitialized sock)

/-- Why the read loop ends. -/
inductive Ending (T : Type) where
  | eof
  | tooLarge
  | rethrown (thrown : T)
  deriving DecidableEq

/-- The delegate's `on_message`, with what it changes. -/
abbrev OnMessage (H T : Type) := Message → H → EStateM.Result T H Unit

variable (onMessage : OnMessage H T)

/-- `read_loop`, for as many rounds as are given. -/
def readLoop : Nat → StcpSocket E D → H → Option (H × Ending T)
  | 0, _, _ => none
  | rounds + 1, sock, delegate =>
    match read (StcpSocket.readsome cipher) 16 sock with
    | none => some (delegate, .eof)
    | some (buffer, sock) =>
      let size := UInt32.ofNat (fromBytes (buffer.take 4))
      let msgType := UInt32.ofNat (fromBytes ((buffer.drop 4).take 4))
      if maxMessageSize < size.toNat then some (delegate, .tooLarge)
      else
        match read (StcpSocket.readsome cipher) (remainingBytesWithPadding size) sock with
        | none => some (delegate, .eof)
        | some (body, sock) =>
          let message : Message :=
            { size := size, msgType := msgType,
              data := resize (buffer.drop 8 ++ body) size.toNat
              sized := length_resize _ _ }
          match onMessage message delegate with
          | .error thrown delegate => some (delegate, .rethrown thrown)
          | .ok _ delegate => readLoop rounds sock delegate

/-- `accept` or `connect_to`: keys are exchanged, and then the read loop is started. -/
def connect {Key Secret : Type} (exchange : KeyExchange Key Secret E D cipher) (rounds : Nat)
    (privKey : Key) (sock : TcpSocket) (delegate : H) : Option (H × Ending T) :=
  match StcpSocket.doKeyExchange exchange privKey sock with
  | none => some (delegate, .eof)
  | some sock => readLoop cipher onMessage rounds sock delegate

/-- What the delegate sees of the messages when a number of their bytes arrives. -/
def deliver : Nat → List Message → H → H × Ending T
  | _, [], delegate => (delegate, .eof)
  | arriving, message :: rest, delegate =>
    if arriving < 16 then (delegate, .eof)
    else if maxMessageSize < message.size.toNat then (delegate, .tooLarge)
    else if arriving < sizeWithPadding message then (delegate, .eof)
    else
      match onMessage message delegate with
      | .error thrown delegate => (delegate, .rethrown thrown)
      | .ok _ delegate => deliver (arriving - sizeWithPadding message) rest delegate

end Connection

/-- The buffer has the size computed for it. -/
theorem length_paddedMessage (message : Message) (uninitialized : Nat → UInt8) :
    (paddedMessage message uninitialized).length = sizeWithPadding message := by
  have fits : 8 + message.size.toNat ≤ sizeWithPadding message := by
    rw [sizeWithPadding]
    omega
  simp only [paddedMessage, Message.header, List.length_append, length_toBytes, message.sized,
    List.length_map, List.length_range]
  omega

theorem whole_padding (message : Message) : 16 ∣ sizeWithPadding message := Nat.dvd_mul_right 16 _

theorem sixteen_le_padding (message : Message) : 16 ≤ sizeWithPadding message := by
  rw [sizeWithPadding]
  omega

/-- Up to the maximal size the 32 bits suffice, also below 8, where the subtraction wraps. -/
theorem remaining_eq {size : UInt32} (small : size.toNat ≤ maxMessageSize) :
    remainingBytesWithPadding size = 16 * ((size.toNat + 7) / 16) := by
  rw [maxMessageSize] at small
  simp only [remainingBytesWithPadding, UInt32.toNat_mul, UInt32.toNat_div, UInt32.toNat_add,
    UInt32.toNat_sub, UInt32.reduceToNat]
  omega

theorem length_header (message : Message) : message.header.length = 8 := by
  rw [Message.header, List.length_append, length_toBytes, length_toBytes]

/-- A number of the header is read back. -/
theorem number_read (value : UInt32) : UInt32.ofNat (fromBytes (toBytes 4 value.toNat)) = value := by
  have small : value.toNat < 256 ^ 4 := value.toNat_lt
  rw [fromBytes_toBytes, Nat.mod_eq_of_lt small, UInt32.ofNat_toNat]

/-- The first 16 bytes hold the header and 8 bytes more. -/
theorem header_read (message : Message) (uninitialized : Nat → UInt8) (behind : List UInt8) :
    UInt32.ofNat (fromBytes
        (((paddedMessage message uninitialized ++ behind).take 16).take 4)) = message.size ∧
      UInt32.ofNat (fromBytes
        ((((paddedMessage message uninitialized ++ behind).take 16).drop 4).take 4)) =
          message.msgType := by
  have first : (toBytes 4 message.size.toNat).length = 4 := length_toBytes 4 _
  have second : (toBytes 4 message.msgType.toNat).length = 4 := length_toBytes 4 _
  rw [List.take_take, List.drop_take, List.take_take, Nat.min_eq_left (by omega),
    Nat.min_eq_left (by omega)]
  simp only [paddedMessage, Message.header, List.append_assoc]
  rw [List.take_left' first, List.drop_left' first, List.take_left' second]
  exact ⟨number_read message.size, number_read message.msgType⟩

/-- With the rest of the buffer they are the data, which the filling is cut off from. -/
theorem data_read (message : Message) (uninitialized : Nat → UInt8) (behind : List UInt8)
    {remaining : Nat} (exact : 16 + remaining = sizeWithPadding message) :
    resize (((paddedMessage message uninitialized ++ behind).take 16).drop 8 ++
      ((paddedMessage message uninitialized ++ behind).drop 16).take remaining)
        message.size.toNat = message.data := by
  have size := length_paddedMessage message uninitialized
  have joined : ((paddedMessage message uninitialized ++ behind).take 16).drop 8 ++
      ((paddedMessage message uninitialized ++ behind).drop 16).take remaining =
        (paddedMessage message uninitialized).drop 8 := by
    rw [← List.drop_append_of_le_length (by rw [List.length_take, List.length_append]; omega),
      ← List.take_add, exact, List.take_left' size]
  rw [joined, paddedMessage, List.append_assoc, List.drop_left' (length_header message), resize,
    List.take_left' message.sized]
  have long : message.size.toNat - (message.data ++ (List.range (sizeWithPadding message -
      (8 + message.size.toNat))).map uninitialized).length = 0 := by
    rw [List.length_append, message.sized]
    omega
  rw [long, List.replicate_zero, List.append_nil]

section Connection

variable {E D H T : Type} {cipher : Cipher E D} {onMessage : OnMessage H T}

/-- The buffers of messages, one after the other. -/
def bytesOf (sends : List (Message × (Nat → UInt8))) : List UInt8 :=
  sends.flatMap fun send => paddedMessage send.1 send.2

theorem whole_bytesOf (sends : List (Message × (Nat → UInt8))) : 16 ∣ (bytesOf sends).length := by
  induction sends with
  | nil => exact Nat.dvd_zero 16
  | cons send rest hypothesis =>
    rw [bytesOf, List.flatMap_cons, List.length_append, length_paddedMessage]
    exact Nat.dvd_add (whole_padding send.1) hypothesis

/-- What is on the wire after the messages. -/
theorem sendAll_eq (sends : List (Message × (Nat → UInt8))) (sock : StcpSocket E D) :
    sendAll cipher sends sock = sock.encoded cipher (bytesOf sends) := by
  induction sends generalizing sock with
  | nil =>
    simp only [sendAll, bytesOf, List.flatMap_nil, StcpSocket.encoded, Cipher.encode,
      List.length_nil, Nat.zero_div, eachBlock, List.append_nil]
  | cons send rest hypothesis =>
    obtain ⟨message, uninitialized⟩ := send
    have length := length_paddedMessage message uninitialized
    obtain ⟨blocks, size⟩ := whole_padding message
    have front : (paddedMessage message uninitialized).length = 16 * blocks := length.trans size
    have there : 16 * blocks ≤ (bytesOf ((message, uninitialized) :: rest)).length := by
      rw [bytesOf, List.flatMap_cons, List.length_append, front]
      omega
    have split := cipher.encode_split sock.sendAes there
    rw [bytesOf, List.flatMap_cons, List.take_left' front, List.drop_left' front] at split
    rw [sendAll, hypothesis, sendMessage,
      StcpSocket.write_eq cipher (front ▸ Nat.dvd_mul_right 16 blocks)]
    simp only [StcpSocket.encoded, bytesOf, List.flatMap_cons, split, List.append_assoc]

/-- The read loop shows the delegate what it should see, however the bytes are split, encrypted
and filled up.

Proof: by induction on the messages. `Receiving` hides the socket: a read of the header or of the
rest gives the next bytes of the buffers, or nothing when they do not arrive. -/
theorem readLoop_delivers {sends : List (Message × (Nat → UInt8))} {arriving rounds : Nat}
    {sock : StcpSocket E D} (receiving : Receiving cipher (bytesOf sends) arriving sock)
    (enough : sends.length < rounds) (delegate : H) :
    readLoop cipher onMessage rounds sock delegate =
      some (deliver onMessage arriving (sends.map Prod.fst) delegate) := by
  induction sends generalizing arriving rounds sock delegate with
  | nil =>
    obtain ⟨fewer, rfl⟩ : ∃ fewer, rounds = fewer + 1 := ⟨rounds - 1, by omega⟩
    have nothing := receiving.read_none (Nat.dvd_refl 16) (by
      show min arriving 0 < 16
      omega)
    simp only [readLoop, nothing, List.map_nil, deliver]
  | cons send rest hypothesis =>
    obtain ⟨message, uninitialized⟩ := send
    obtain ⟨fewer, rfl⟩ : ∃ fewer, rounds = fewer + 1 := ⟨rounds - 1, by omega⟩
    have size := length_paddedMessage message uninitialized
    have least := sixteen_le_padding message
    have bytes : bytesOf ((message, uninitialized) :: rest) =
        paddedMessage message uninitialized ++ bytesOf rest := List.flatMap_cons
    have total : (bytesOf ((message, uninitialized) :: rest)).length =
        sizeWithPadding message + (bytesOf rest).length := by
      rw [bytes, List.length_append, size]
    simp only [readLoop, List.map_cons, deliver]
    by_cases headless : arriving < 16
    · have nothing := receiving.read_none (Nat.dvd_refl 16) (by omega)
      simp only [nothing, headless, if_true]
    · obtain ⟨afterHeader, buffer, behind⟩ :=
        receiving.read (Nat.dvd_refl 16) (by omega) (by omega)
      obtain ⟨sizeRead, typeRead⟩ := header_read message uninitialized (bytesOf rest)
      rw [bytes] at buffer behind
      simp only [buffer, headless, if_false, sizeRead, typeRead]
      by_cases large : maxMessageSize < message.size.toNat
      · simp only [large, if_true]
      · have remaining := remaining_eq (Nat.not_lt.mp large)
        have whole : 16 + remainingBytesWithPadding message.size = sizeWithPadding message := by
          rw [remaining, sizeWithPadding]
          omega
        have left : ((paddedMessage message uninitialized ++ bytesOf rest).drop 16).length =
            remainingBytesWithPadding message.size + (bytesOf rest).length := by
          rw [List.length_drop, List.length_append, size]
          omega
        have units : 16 ∣ remainingBytesWithPadding message.size :=
          remaining ▸ Nat.dvd_mul_right 16 _
        simp only [large, if_false]
        by_cases short : arriving < sizeWithPadding message
        · have nothing := behind.read_none units (by omega)
          simp only [nothing, short, if_true]
        · obtain ⟨afterBody, body, later⟩ := behind.read units (by omega) (by omega)
          have data := data_read message uninitialized (bytesOf rest) whole
          simp only [body, short, if_false, data]
          cases onMessage message delegate with
          | error thrown changed => rfl
          | ok _ changed =>
            rw [List.drop_drop, whole, List.drop_left' size] at later
            rw [Nat.sub_sub, whole] at later
            exact hypothesis later (Nat.lt_of_succ_lt_succ enough) changed

/-- A key that arrives is the whole of what is read of the exchange. -/
theorem doKeyExchange_some {Key Secret : Type} (exchange : KeyExchange Key Secret E D cipher)
    (privKey other : Key) (behind : List UInt8) (arrivals : List Nat) :
    ∃ sock, StcpSocket.doKeyExchange exchange privKey
        { source := { incoming := exchange.serialize other ++ behind, arrivals := arrivals },
          written := [] } = some sock ∧
      sock.sock.source.incoming = behind ∧ sock.sock.written = exchange.serialize privKey ∧
      sock.sendAes = exchange.encoder (exchange.getSharedSecret privKey (exchange.serialize other)) ∧
      sock.recvAes = exchange.decoder (exchange.getSharedSecret privKey (exchange.serialize other)) := by
  have length := exchange.length_serialize other
  have there : 33 ≤ (exchange.serialize other ++ behind).length := by
    rw [List.length_append, length]
    exact Nat.le_add_right 33 _
  obtain ⟨last, got, left⟩ := @read_source _ ⟨exchange.serialize other ++ behind, arrivals⟩ 33 there
  rw [List.take_left' length] at got
  rw [List.drop_left' length] at left
  rw [StcpSocket.doKeyExchange, got]
  exact ⟨_, rfl, left, rfl, rfl, rfl⟩

/-- Two nodes connect, and one of them sends messages. Whatever the pieces in which the bytes of
both arrive, the other one hands its delegate, in order, each message of which all bytes have
arrived after the 33 of the key, up to the first that is too large or that the delegate throws
on. -/
theorem connection_delivers {Key Secret : Type} (exchange : KeyExchange Key Secret E D cipher)
    (onMessage : OnMessage H T) (sender receiver : Key) (sends : List (Message × (Nat → UInt8)))
    (cut : Nat) {rounds : Nat} (enough : sends.length < rounds) (answers : List UInt8)
    (arrivals back : List Nat) (delegate : H) :
    ∃ sock, StcpSocket.doKeyExchange exchange sender
        { source := { incoming := exchange.serialize receiver ++ answers, arrivals := back },
          written := [] } = some sock ∧
      connect cipher onMessage exchange rounds receiver
        { source := { incoming := (sendAll cipher sends sock).sock.written.take cut,
                      arrivals := arrivals },
          written := [] } delegate =
        some (deliver onMessage (cut - 33) (sends.map Prod.fst) delegate) := by
  obtain ⟨sock, exchanged, -, written, encoder, -⟩ :=
    doKeyExchange_some exchange sender receiver answers back
  refine ⟨sock, exchanged, ?_⟩
  have length := exchange.length_serialize sender
  rw [sendAll_eq, StcpSocket.encoded, written, encoder, connect]
  dsimp only
  rcases Nat.lt_or_ge cut 33 with short | long
  · have lost : read Source.readsome 33 (Source.mk ((exchange.serialize sender ++
        (cipher.encode (exchange.encoder (exchange.getSharedSecret sender
          (exchange.serialize receiver))) (bytesOf sends)).1).take cut) arrivals) = none := by
      refine read_source_none ?_
      rw [List.length_take]
      omega
    rw [StcpSocket.doKeyExchange, lost]
    have nothing : cut - 33 = 0 := by omega
    cases sends with
    | nil => rfl
    | cons send rest => simp only [nothing, List.map_cons, deliver, Nat.zero_lt_succ, if_true]
  · rw [List.take_append, List.take_of_length_le (by omega), length]
    obtain ⟨accepted, done, incoming, -, -, decoder⟩ := doKeyExchange_some exchange receiver sender
      ((cipher.encode (exchange.encoder (exchange.getSharedSecret sender
        (exchange.serialize receiver))) (bytesOf sends)).1.take (cut - 33)) arrivals
    rw [done]
    refine readLoop_delivers ⟨whole_bytesOf sends, _, ?_, incoming⟩ enough delegate
    rw [decoder, exchange.agree receiver sender]
    exact exchange.paired _

end Connection

/-- A cipher that shifts every block by one more than the last. -/
def shiftCipher : Cipher UInt8 UInt8 where
  encodeBlock shift block := (block.map (· + shift), shift + 1)
  decodeBlock shift block := (block.map (· - shift), shift + 1)
  paired first second := first = second
  length_encode _ block sized := (List.length_map _).trans sized
  length_decode _ block sized := (List.length_map _).trans sized
  undoes first second block same _ := by
    subst same
    refine ⟨?_, rfl⟩
    rw [List.map_map]
    exact (List.map_congr_left fun byte _ => UInt8.add_sub_cancel byte first).trans (List.map_id _)

/-- Keys of one byte each, whose sum is shared. -/
def sumExchange : KeyExchange UInt8 UInt8 UInt8 UInt8 shiftCipher where
  serialize key := List.replicate 33 key
  getSharedSecret key other := key + other.headD 0
  encoder := id
  decoder := id
  length_serialize _ := List.length_replicate
  agree key other := UInt8.add_comm key other
  paired _ := rfl

/-- A message of 3 bytes and one of 20, sent with different fillings. -/
def twoSends : List (Message × (Nat → UInt8)) :=
  [({ size := 3, msgType := 5001, data := [1, 2, 3], sized := rfl }, fun _ => 255),
    ({ size := 20, msgType := 5002, data := List.replicate 20 7, sized := rfl }, UInt8.ofNat)]

/-- Of 65 bytes, which arrive a few at a time, 33 are the key and 16 the first message; the
second message is cut off. -/
theorem first_of_two_delivered :
    ∃ sock, StcpSocket.doKeyExchange sumExchange 9
        { source := { incoming := sumExchange.serialize 200 ++ [], arrivals := [] },
          written := [] } = some sock ∧
      connect shiftCipher (fun message log => .ok () (log ++ [message.msgType])) sumExchange 3 200
        { source := { incoming := (sendAll shiftCipher twoSends sock).sock.written.take 65,
                      arrivals := [4, 0, 90, 2, 16, 5] },
          written := [] } [] = some ([5001], (.eof : Ending Empty)) :=
  connection_delivers sumExchange (fun message log => .ok () (log ++ [message.msgType])) 9 200
    twoSends 65 (by decide) [] [4, 0, 90, 2, 16, 5] [] []

end DeipChain.Net
