import MySystem.Tty.Display
import MySystem.Tty.Interleaving
import MySystem.Tty.Fifo
import MySystem.Tty.Text
import MySystem.Tty.Cost
import MySystem.Console.Partition
import MySystem.Console.Scroll
import MySystem.Print.Progress
import MySystem.Print.Decimal
import MySystem.Print.Printk
import MySystem.Print.Concat
import MySystem.Segment.Describe
import MySystem.Time.Cmos
import MySystem.Trap.Init
import MySystem.Trap.Arguments
import MySystem.Trap.Coprocessor
import MySystem.Trap.Irq
import MySystem.Trap.Wrapper
import MySystem.Direction
import MySystem.Boot.Image
import MySystem.Tools.Makeimg
import MySystem.Boot.Main
