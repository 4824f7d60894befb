import SdrProxy.Client

/-!
# What the threads share, and what they are seen to do

`struct clientcomm` and the outcomes of socket calls, and the events by which the effects of the
threads are told apart.  No thread reads an event.
-/

namespace SdrProxy

/-- `struct clientcomm`, without the host and port strings. -/
structure ClientComm where
  /-- `flags & CHANCHANGE`. -/
  chanChange : Bool
  /-- Our client number, -1 for none. -/
  clientNo : ℤ
  /-- The configuration the client thread last published. -/
  chanInfo : ChannelInfo
  deriving DecidableEq, Repr

/-- The values of `errno` the program tells apart. -/
inductive Errno where
  | EAGAIN
  | EWOULDBLOCK
  | EPIPE
  | ECONNRESET
  | ECONNREFUSED
  | ENETUNREACH
  | ETIMEDOUT
  /-- Any other error. -/
  | other
  deriving DecidableEq, Repr

/-- What a `send` reports: the result and `errno`, which is an old one unless the result is
negative. -/
structure SendResult where
  /-- The number of bytes taken, negative on an error. -/
  rv : ℤ
  /-- The value of `errno`. -/
  errno : Errno
  deriving DecidableEq, Repr

/-- Effects of the threads. -/
inductive Event where
  /-- The client thread read `CHANCHANGE` at the start of a pass. -/
  | sampled (inhibitAdc : Bool)
  /-- The receive path handed something on. -/
  | rcv (e : RcvEvent)
  /-- The client thread ended a pass, and raised `CHANCHANGE` if it found a change. -/
  | passEnd (raised : Bool)
  /-- The main thread told the server thread to shut down. -/
  | closeCmd
  /-- `RING_DEALLOC` of the data ring. -/
  | dealloc
  /-- `RING_ALLOC` of the data ring, with `chan_info_g` as it was. -/
  | alloc (c : ChannelInfo)
  /-- The main thread copied the configuration and cleared `CHANCHANGE`. -/
  | cleared (c : ChannelInfo)
  /-- The main thread started a server thread. -/
  | started
  /-- A remote client was given a connection record. -/
  | opened (conn : ℕ)
  /-- `put_channel_data` placed a text on the send ring of a connection. -/
  | chanPlaced (conn : ℕ) (text : List UInt8)
  /-- `put_adc_data` placed a packet on the send ring of a connection. -/
  | packetPlaced (conn : ℕ) (element : PacketInfo) (pkt : List UInt8)
  deriving DecidableEq

end SdrProxy
