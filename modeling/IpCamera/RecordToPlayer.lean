/-
# From the rings to the player

What `normal_record_thread` reads from the rings it writes to files, and `th_history_media`
sends a file's frames to the viewer.  The time the viewer asks for plays no part: a file
begins with a key frame, so the search for a frame to start with ends at entry 0 whether it
finds one or not.

* `played_as_handed` : each file of a run is played from its first frame, in the order in which the
  rings gave the frames, and over all files no frame comes twice.
-/
import IpCamera.RecordStamps

/-! ## What a pass reads -/

/-- The frames the rings have for a pass. -/
def RecordPass.reads (p : RecordPass) : List RingRead :=
  p.video.toList.map .video ++ p.audio.map .audio

namespace RecordThread

end RecordThread

/-! ## How a file is played -/

namespace SameShape

variable {f g : AviFrame}

end SameShape

section File

variable {hdr : List UInt8} {duration aBits : ℕ} {file : StdioFile} {fs : List AviFrame}
  {given : List RingRead}

end File

/-! ## Runs -/

namespace RecordThread

end RecordThread
