import CkbScriptIpc.Sending
import CkbScriptIpc.Shutdown
import CkbScriptIpc.Responses
import CkbScriptIpc.Rpc
import CkbScriptIpc.Spawn
import CkbScriptIpc.Recovery
import CkbScriptIpc.NativeRpc
import CkbScriptIpc.NativeSyscall
import CkbScriptIpc.Endless
import CkbScriptIpc.Text
import CkbScriptIpc.Macro.Names
import CkbScriptIpc.Macro.Cfg
import CkbScriptIpc.Csi.Wire
import CkbScriptIpc.Csi.Codec
import CkbScriptIpc.Csi.Server
import CkbScriptIpc.Csi.Callback
import CkbScriptIpc.Csi.Channels
import CkbScriptIpc.Csi.Call
import CkbScriptIpc.Csi.Loop
import CkbScriptIpc.Csi.Outcome
import CkbScriptIpc.Csi.Reader
import CkbScriptIpc.Csi.Writer
import CkbScriptIpc.Csi.Iobuf
import CkbScriptIpc.Csi.Refusal
import CkbScriptIpc.Interop
import CkbScriptIpc.Transcript
import CkbScriptIpc.NativeSession
import CkbScriptIpc.NativeMachine
import CkbScriptIpc.NativePipeline
import CkbScriptIpc.Remote
import CkbScriptIpc.UnitTestsCrypto
import CkbScriptIpc.LocalObject
