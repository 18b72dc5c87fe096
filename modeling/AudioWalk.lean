import AudioWalk.Main
import AudioWalk.Proofs.Session.OneClip
import AudioWalk.Proofs.Session.Safety
import AudioWalk.Proofs.Markup.Documents
import AudioWalk.Proofs.Session.Gates
import AudioWalk.Proofs.Geofence.Editing
import AudioWalk.Proofs.Session.Interruption
import AudioWalk.Proofs.Session.Restart
import AudioWalk.Proofs.Session.Replaying
import AudioWalk.Proofs.Script.Silence
import AudioWalk.Proofs.Script.Arithmetic
import AudioWalk.Proofs.Markup.RootTag
import AudioWalk.Proofs.Library.Loading
import AudioWalk.Proofs.Story.Expressed
import AudioWalk.Proofs.Story.Respelled
import AudioWalk.Proofs.Script.Blocks
import AudioWalk.Proofs.Script.Stopping
import AudioWalk.Proofs.Geofence.Undefined
import AudioWalk.Proofs.Markup.Decoding
import AudioWalk.Proofs.Story.Integers
import AudioWalk.Proofs.Settings
import AudioWalk.Proofs.Json.Exact
