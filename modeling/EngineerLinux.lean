import EngineerLinux.PairedQueue.WakeUps
import EngineerLinux.PairedQueue.Overflow
import EngineerLinux.PairedQueue.Deadlock
import EngineerLinux.FrameIpc.Undo
import EngineerLinux.FrameIpc.Naming
import EngineerLinux.FrameIpc.Frames
import EngineerLinux.FrameIpc.Attachments
import EngineerLinux.FrameIpc.Protect
import EngineerLinux.Ipc.Descriptors
import EngineerLinux.Ipc.Routing
import EngineerLinux.Ipc.Results
import EngineerLinux.InheritProcess.Rebind
import EngineerLinux.InheritProcess.Session
import EngineerLinux.LeakCheck.Count
import EngineerLinux.Backtrace.Estimate
import EngineerLinux.MoveDir.Agree
import EngineerLinux.MoveDir.Alias
import EngineerLinux.MoveDir.Frame
import EngineerLinux.MoveDir.Depth
import EngineerLinux.StartProcess.Command
import EngineerLinux.StartProcess.Output
import EngineerLinux.StartProcess.Signals
import EngineerLinux.LibcSystem.Restore
import EngineerLinux.Popen.Descriptors
import EngineerLinux.Nptl.Stacks
import EngineerLinux.GSpawn.Execute
