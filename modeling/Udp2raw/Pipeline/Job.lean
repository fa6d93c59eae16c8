import Udp2raw.Conn

/-!
# Jobs of the crypto pipeline

A job names the connection it belongs to by slot and generation, and its
completion carries the same key. `process` is what a worker does with one job.
-/

namespace Udp2raw

/-- The connection a job belongs to; `generation` guards against slot reuse. -/
structure JobKey where
  slot : Nat
  generation : UInt64
  deriving DecidableEq, Repr

/-- Work for the pipeline. -/
inductive Job where
  /-- Encrypt a prepared safer plaintext. -/
  | encrypt (key : JobKey) (plain : Bytes)
  /-- Decrypt and split a received raw payload. -/
  | decrypt (key : JobKey) (wire : Bytes) (recv : RecvMeta)
  deriving DecidableEq, Repr

/-- A completed job. -/
inductive Done where
  | encrypted (key : JobKey) (wire : Option Bytes)
  | decrypted (key : JobKey) (plains : List Bytes) (recv : RecvMeta)
  deriving DecidableEq, Repr

/-- `process`; the arguments are `encrypt_safer_vec` and `decrypt_safer_vec`. -/
def process (encryptSafer : Bytes → Option Bytes) (decryptSafer : Bytes → List Bytes) : Job → Done
  | .encrypt key plain => .encrypted key (encryptSafer plain)
  | .decrypt key wire recv => .decrypted key (decryptSafer wire) recv

end Udp2raw
